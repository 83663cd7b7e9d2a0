import RtThread.Utilities.Zcore

set_option linter.all false

/-!
# ZMODEM data subpackets

Every byte survives its escape sequence, and every byte sent is taken into the check registers
of both sides.  With 16 check bits a subpacket comes back as it was sent.  With 32 check bits
the receiver tests some bits of the register where it should compare the whole of it, and finds
every right subpacket wrong.
-/

namespace RtThread.Zmodem

open RtThread.Core
open RtThread.Ringbuffer (copyIn copyOut)

/-! ## Escape sequences -/

def Escaped (byte : UInt8) : Prop :=
  byte = 0x18 ∨ byte = 0x11 ∨ byte = 0x13 ∨ byte = 0x91 ∨ byte = 0x93

instance (byte : UInt8) : Decidable (Escaped byte) := by
  unfold Escaped
  infer_instance

theorem zsendZdleChar_low (ch : UInt16) : zsendZdleChar ch = zsendZdleChar ch.toUInt8.toUInt16 := by
  have hlow : ch.toUInt8.toUInt16 &&& 0xff = ch &&& 0xff := by
    apply UInt16.toNat_inj.1
    rw [UInt16.toNat_and, UInt16.toNat_and, UInt8.toNat_toUInt16, UInt16.toNat_toUInt8]
    change ch.toNat % 2 ^ 8 &&& (2 ^ 8 - 1) = ch.toNat &&& (2 ^ 8 - 1)
    rw [Nat.and_two_pow_sub_one_eq_mod, Nat.and_two_pow_sub_one_eq_mod, Nat.mod_mod]
  rw [zsendZdleChar, zsendZdleChar, hlow]

theorem zsendZdleChar_eq (byte : UInt8) :
    zsendZdleChar byte.toUInt16 = if Escaped byte then [zdle, byte ^^^ 0x40] else [byte] := by
  by_cases hescaped : Escaped byte
  · rcases hescaped with rfl | rfl | rfl | rfl | rfl <;> decide
  · have hlow : byte.toUInt16 &&& 0xff = byte.toUInt16 := by
      rw [← UInt16.toNat_inj, UInt16.toNat_and, UInt8.toNat_toUInt16]
      exact (Nat.and_two_pow_sub_one_eq_mod byte.toNat 8).trans (Nat.mod_eq_of_lt byte.toNat_lt)
    have hwide {other : UInt8} (hne : byte ≠ other) : byte.toUInt16 ≠ other.toUInt16 :=
      fun hsame => hne (UInt8.toUInt16_inj.1 hsame)
    rw [if_neg hescaped, zsendZdleChar, hlow]
    simp only [Escaped, not_or] at hescaped
    obtain ⟨hzdle, hxon, hxoff, hxon', hxoff'⟩ := hescaped
    have hcontrol : ¬ (byte.toUInt16 = 0x11 ∨ byte.toUInt16 = 0x13 ∨ byte.toUInt16 = 0x91 ∨
        byte.toUInt16 = 0x93) := by
      simp only [not_or]
      exact ⟨hwide hxon, hwide hxoff, hwide hxon', hwide hxoff'⟩
    have hnotZdle : byte.toUInt16 ≠ zdle.toUInt16 := hwide hzdle
    rw [if_neg hnotZdle, if_neg hcontrol, ite_self, zsendByte, UInt8.toUInt8_toUInt16]

theorem zreadByte_zdleChar (byte : UInt8) (rest : List UInt8) :
    zreadByte (zsendZdleChar byte.toUInt16 ++ rest) = some ((byte.toNat : Int), rest) := by
  rw [zsendZdleChar_eq]
  split_ifs with hescaped
  · rcases hescaped with rfl | rfl | rfl | rfl | rfl <;> rfl
  · rw [List.singleton_append, zreadByte]
    simp only [Escaped, not_or] at hescaped
    obtain ⟨hzdle, hxon, hxoff, hxon', hxoff'⟩ := hescaped
    split_ifs with hplain hcontrol hskip
    · rfl
    · exact absurd hcontrol hzdle
    · simp [hxoff, hxoff', hxon, hxon'] at hskip
    · rfl

theorem zsendZdleChars_cons (byte : UInt8) (bytes : List UInt8) :
    zsendZdleChars (byte :: bytes) = zsendZdleChar byte.toUInt16 ++ zsendZdleChars bytes :=
  rfl

theorem zsendZdleChars_append (bytes more : List UInt8) :
    zsendZdleChars (bytes ++ more) = zsendZdleChars bytes ++ zsendZdleChars more :=
  List.flatMap_append

theorem zsendCrc32_eq (len : ℕ) (crc : UInt32) :
    zsendCrc32 len crc = zsendZdleChars (Crc.lowBytes len crc) := by
  induction len generalizing crc with
  | zero => rfl
  | succ len ih =>
    have hlow : crc.toUInt16.toUInt8 = crc.toUInt8 := by simp
    rw [zsendCrc32, Crc.lowBytes, zsendZdleChars_cons, ih, zsendZdleChar_low, hlow]

/-- How a subpacket may end. -/
def FrameEnd (frameend : UInt8) : Prop :=
  frameend = zcrce ∨ frameend = zcrcg ∨ frameend = zcrcq ∨ frameend = zcrcw

def gotFrameEnd (frameend : UInt8) : Int :=
  (frameend.toNat ||| gotor : ℕ)

theorem zreadByte_frameEnd {frameend : UInt8} (hend : FrameEnd frameend) (rest : List UInt8) :
    zreadByte (zdle :: frameend :: rest) = some (gotFrameEnd frameend, rest) := by
  rcases hend with rfl | rfl | rfl | rfl <;> rfl

/-! ## The check registers -/

def crc16Of (bytes : List UInt8) (crc : UInt16) : UInt16 :=
  bytes.foldl (fun crc byte => updcrc16 byte crc) crc

def crc32Of (bytes : List UInt8) (crc : UInt32) : UInt32 :=
  Crc.absorb cr3tabAt bytes crc

theorem updcrc16Wide_low (byte : UInt8) (crc : UInt32) :
    (updcrc16Wide byte crc).toUInt16 = updcrc16 byte crc.toUInt16 := by
  have hhigh : (crc.toUInt16 >>> 8).toUInt8 = (crc >>> 8).toUInt8 := by
    apply UInt8.toNat_inj.1
    rw [UInt16.toNat_toUInt8, UInt32.toNat_toUInt8, UInt16.toNat_shiftRight,
      UInt32.toNat_shiftRight, UInt32.toNat_toUInt16]
    change (crc.toNat % 2 ^ 16) >>> 8 % 2 ^ 8 = crc.toNat >>> 8 % 2 ^ 8
    simp only [Nat.shiftRight_eq_div_pow]
    omega
  have hup : (crc <<< 8).toUInt16 = crc.toUInt16 <<< 8 := by
    apply UInt16.toNat_inj.1
    rw [UInt32.toNat_toUInt16, UInt32.toNat_shiftLeft, UInt16.toNat_shiftLeft,
      UInt32.toNat_toUInt16]
    change crc.toNat <<< 8 % 2 ^ 32 % 2 ^ 16 = (crc.toNat % 2 ^ 16) <<< 8 % 2 ^ 16
    simp only [Nat.shiftLeft_eq]
    omega
  rw [updcrc16, Crc.shiftUp, updcrc16Wide, UInt32.toUInt16_xor, UInt32.toUInt16_xor, hhigh, hup]
  simp

theorem foldl_updcrc16Wide (bytes : List UInt8) (crc : UInt32) :
    (bytes.foldl (fun crc byte => updcrc16Wide byte crc) crc).toUInt16 =
      crc16Of bytes crc.toUInt16 := by
  induction bytes generalizing crc with
  | nil => rfl
  | cons byte bytes ih => rw [List.foldl_cons, ih, updcrc16Wide_low, crc16Of, crc16Of,
    List.foldl_cons]

/-- The check bytes of 16 bits, in the order they are sent. -/
def check16 (crc : UInt16) : List UInt8 :=
  let check := updcrc16 0 (updcrc16 0 crc)
  [(check >>> 8).toUInt8, check.toUInt8]

theorem crc16Of_check (crc : UInt16) : crc16Of (check16 crc) crc = 0 :=
  Crc.shiftUp_check crctabAt crc

/-- What the register of 32 bits holds after its own check bytes. -/
theorem crc32Of_check (crc : UInt32) :
    crc32Of (Crc.lowBytes 4 (~~~crc)) crc = 0xdebb20e3 := by
  rw [crc32Of, Crc.absorb_check]
  decide +kernel

/-- The two check bytes that are sent from a register of 32 bits. -/
theorem zsendCheck16 (crc : UInt32) :
    zsendZdleChar (updcrc16Wide 0 (updcrc16Wide 0 crc) >>> 8).toUInt16 ++
      zsendZdleChar (updcrc16Wide 0 (updcrc16Wide 0 crc)).toUInt16 =
        zsendZdleChars (check16 crc.toUInt16) := by
  have hhigh : ∀ word : UInt32, (word >>> 8).toUInt16.toUInt8 = (word.toUInt16 >>> 8).toUInt8 := by
    intro word
    apply UInt8.toNat_inj.1
    rw [UInt16.toNat_toUInt8, UInt16.toNat_toUInt8, UInt32.toNat_toUInt16, UInt32.toNat_shiftRight,
      UInt16.toNat_shiftRight, UInt32.toNat_toUInt16]
    change word.toNat >>> 8 % 2 ^ 16 % 2 ^ 8 = (word.toNat % 2 ^ 16) >>> 8 % 2 ^ 8
    simp only [Nat.shiftRight_eq_div_pow]
    omega
  rw [zsendZdleChar_low, zsendZdleChar_low (updcrc16Wide 0 (updcrc16Wide 0 crc)).toUInt16, hhigh,
    updcrc16Wide_low, updcrc16Wide_low, check16, zsendZdleChars_cons, zsendZdleChars_cons,
    zsendZdleChars, List.flatMap_nil, List.append_nil]

/-! ## The bytes that are sent -/

/-- Bytes, the end of the frame and its check bytes, and what follows them. -/
def subpacket (content : List UInt8) (frameend : UInt8) (check rest : List UInt8) : List UInt8 :=
  zsendZdleChars content ++ zdle :: frameend :: (zsendZdleChars check ++ rest)

theorem zsendByte_toUInt16 (byte : UInt8) : zsendByte byte.toUInt16 = [byte] := by
  rw [zsendByte, UInt8.toUInt8_toUInt16]

theorem zsendBinData_crc16 (beyond frameend : UInt8) (data rest : List UInt8) :
    ∃ more, zsendBinData .crc16 beyond data frameend ++ rest =
      subpacket data frameend (check16 (crc16Of (data ++ [frameend]) 0)) more := by
  refine ⟨(if frameend = zcrcw then zsendByte xon.toUInt16 else []) ++ rest, ?_⟩
  have hcrc : (updcrc16Wide frameend
      (data.foldl (fun crc byte => updcrc16Wide byte crc) 0)).toUInt16 =
        crc16Of (data ++ [frameend]) 0 := by
    rw [updcrc16Wide_low, foldl_updcrc16Wide, crc16Of, crc16Of, List.foldl_append]
    rfl
  simp only [zsendBinData, subpacket, zsendByte_toUInt16, List.append_assoc]
  rw [← List.append_assoc (zsendZdleChar _) (zsendZdleChar _), zsendCheck16, hcrc]
  rfl

theorem zsendBinData_crc32 (beyond frameend : UInt8) (data rest : List UInt8) :
    ∃ more, zsendBinData .crc32 beyond data frameend ++ rest =
      subpacket data frameend
        (Crc.lowBytes 4 (~~~crc32Of (data ++ [frameend]) 0xffffffff)) more := by
  refine ⟨(if frameend = zcrcw then zsendByte xon.toUInt16 else []) ++ rest, ?_⟩
  have hcrc : updcrc32 frameend (data.foldl (fun crc byte => updcrc32 byte crc) 0xffffffff) =
      crc32Of (data ++ [frameend]) 0xffffffff := by
    rw [crc32Of, Crc.absorb_append]
    rfl
  simp only [zsendBinData, subpacket, zsendByte_toUInt16, List.append_assoc, zsendCrc32_eq, hcrc]
  rfl

/-! ## Packed runs -/

theorem puts_spec (rle : Rle) (bytes : List UInt8) :
    (rle.puts bytes).1 = zsendZdleChars bytes ∧
      (rle.puts bytes).2.crc = crc32Of bytes rle.crc := by
  induction bytes generalizing rle with
  | nil => exact ⟨rfl, rfl⟩
  | cons byte bytes ih =>
    obtain ⟨hsent, hcrc⟩ := ih (rle.put byte).2
    exact ⟨congrArg (zsendZdleChar byte.toUInt16 ++ ·) hsent, hcrc⟩

theorem rleTurn_spec (c : UInt8) (more : Bool) (rle : Rle) :
    ∃ content, (rleTurn c more rle).1 = zsendZdleChars content ∧
      (rleTurn c more rle).2.crc = crc32Of content rle.crc := by
  rw [rleTurn]
  split
  · exact ⟨[], rfl, rfl⟩
  · split
    · exact ⟨_, puts_spec rle _⟩
    · split
      · split
        · exact ⟨_, puts_spec rle _⟩
        · exact ⟨[], rfl, rfl⟩
      · exact ⟨_, puts_spec rle _⟩

theorem rleLoop_spec (beyond : UInt8) (data : List UInt8) (rle : Rle) :
    ∃ content, (rleLoop beyond data rle).1 = zsendZdleChars content ∧
      (rleLoop beyond data rle).2.crc = crc32Of content rle.crc := by
  induction data generalizing rle with
  | nil => exact rleTurn_spec beyond false rle
  | cons c data ih =>
    obtain ⟨first, hsent, hcrc⟩ := rleTurn_spec c true rle
    obtain ⟨rest, hsent', hcrc'⟩ := ih (rleTurn c true rle).2
    refine ⟨first ++ rest, ?_, ?_⟩
    · rw [zsendZdleChars_append, ← hsent, ← hsent']
      rfl
    · rw [crc32Of, Crc.absorb_append]
      rw [hcrc] at hcrc'
      exact hcrc'

theorem rlePack_spec (beyond : UInt8) (data : List UInt8) :
    ∃ content, (rlePack beyond data).1 = zsendZdleChars content ∧
      (rlePack beyond data).2.crc = crc32Of content 0xffffffff := by
  cases data with
  | nil => exact ⟨[], rfl, rfl⟩
  | cons tmp data => exact rleLoop_spec beyond data ⟨tmp, 0, 0xffffffff⟩

theorem zsendBinData_crc32Rle (beyond frameend : UInt8) (data rest : List UInt8) :
    ∃ content more, zsendBinData .crc32Rle beyond data frameend ++ rest =
      subpacket content frameend
        (Crc.lowBytes 4 (~~~crc32Of (content ++ [frameend]) 0xffffffff)) more := by
  obtain ⟨content, hsent, hcrc⟩ := rlePack_spec beyond data
  refine ⟨content, (if frameend = zcrcw then zsendByte xon.toUInt16 else []) ++ rest, ?_⟩
  have hcheck : updcrc32 frameend (crc32Of content 0xffffffff) =
      crc32Of (content ++ [frameend]) 0xffffffff := by
    rw [crc32Of, crc32Of, Crc.absorb_append]
    rfl
  simp only [zsendBinData, subpacket, zsendByte_toUInt16, List.append_assoc, zsendCrc32_eq, hsent,
    hcrc, hcheck]
  rfl

/-! ## The receiving loop -/

section Receive

variable {Check : Type} {updcrc : UInt8 → Check → Check} {crcLen : ℕ} {wrong : Check → Bool}
  {store : RecState Check → UInt8 → Turn (RecState Check)} {limit : Int} {st : RecState Check}
  {input rest : List UInt8}

theorem zrecLoop_read {turn : RecState Check → Int → Turn (RecState Check)} {res : Int}
    (hplace : (st.pos : Int) ≤ limit) (hread : zreadByte input = some (res, rest)) :
    zrecLoop limit turn st input =
      match turn st res with
      | .goOn st => zrecLoop limit turn st rest
      | .done code st => some (code, st, rest) := by
  rw [zrecLoop, if_pos hplace]
  split
  · next hnone =>
      rw [hread] at hnone
      cases hnone
  · next res' rest' hsome =>
      rw [hread] at hsome
      cases hsome
      rfl

theorem zrecTurn_byte (byte : UInt8) :
    zrecTurn updcrc crcLen wrong store st byte.toNat =
      if st.flag then
        if st.crcCnt + 1 < crcLen then
          .goOn { st with crc := updcrc byte st.crc, crcCnt := st.crcCnt + 1 }
        else if wrong (updcrc byte st.crc) then
          .done rtError { st with crc := updcrc byte st.crc, crcCnt := st.crcCnt + 1 }
        else .done st.c { st with crc := updcrc byte st.crc, crcCnt := st.crcCnt + 1 }
      else store { st with crc := updcrc byte st.crc } byte := by
  have hrange : ¬ ((byte.toNat : Int) < 0 ∨ 0xff < (byte.toNat : Int)) := by
    have hlt := byte.toNat_lt
    omega
  rw [zrecTurn, if_neg hrange, Int.toNat_natCast, UInt8.ofNat_toNat]

theorem zrecTurn_frameEnd {frameend : UInt8} (hend : FrameEnd frameend) :
    zrecTurn updcrc crcLen wrong store st (gotFrameEnd frameend) =
      .goOn { st with
        c := gotFrameEnd frameend, crc := updcrc frameend st.crc, flag := true } := by
  have hbig : gotFrameEnd frameend < 0 ∨ 0xff < gotFrameEnd frameend := by
    rcases hend with rfl | rfl | rfl | rfl <;> decide
  have hlow : UInt8.ofNat (gotFrameEnd frameend).toNat = frameend := by
    rcases hend with rfl | rfl | rfl | rfl <;> decide
  rw [zrecTurn, if_pos hbig, if_pos, hlow]
  exact hend.imp (congrArg gotFrameEnd) fun hend => hend.imp (congrArg gotFrameEnd)
    fun hend => hend.imp (congrArg gotFrameEnd) (congrArg gotFrameEnd)

theorem zrecLoop_check {check : List UInt8} (hplace : (st.pos : Int) ≤ limit)
    (hflag : st.flag = true) (hcheck : check ≠ []) (hcnt : st.crcCnt + check.length = crcLen) :
    ∃ after, after.buf = st.buf ∧ after.rxcount = st.rxcount ∧
      zrecLoop limit (zrecTurn updcrc crcLen wrong store) st (zsendZdleChars check ++ rest) =
        some (if wrong (check.foldl (fun crc byte => updcrc byte crc) st.crc) then rtError
          else st.c, after, rest) := by
  induction check generalizing st with
  | nil => exact absurd rfl hcheck
  | cons byte check ih =>
    rw [zsendZdleChars_cons, List.append_assoc,
      zrecLoop_read hplace (zreadByte_zdleChar byte _), zrecTurn_byte, if_pos hflag]
    cases check with
    | nil =>
      rw [if_neg (by rw [← hcnt]; exact Nat.lt_irrefl _)]
      refine ⟨{ st with crc := updcrc byte st.crc, crcCnt := st.crcCnt + 1 }, rfl, rfl, ?_⟩
      cases hwrong : wrong (updcrc byte st.crc) with
      | true => simp [hwrong, zsendZdleChars]
      | false => simp [hwrong, zsendZdleChars]
    | cons next check =>
      have hmore : st.crcCnt + 1 < crcLen := by
        rw [List.length_cons, List.length_cons] at hcnt
        omega
      have hcnt' : st.crcCnt + 1 + (next :: check).length = crcLen := by
        rw [List.length_cons] at hcnt
        omega
      rw [if_pos hmore]
      exact @ih { st with crc := updcrc byte st.crc, crcCnt := st.crcCnt + 1 } hplace hflag
        (List.cons_ne_nil _ _) hcnt'

theorem zrecLoop_frameEnd {frameend : UInt8} {check : List UInt8} (hend : FrameEnd frameend)
    (hplace : (st.pos : Int) ≤ limit) (hcheck : check ≠ [])
    (hcnt : st.crcCnt + check.length = crcLen) :
    ∃ after, after.buf = st.buf ∧ after.rxcount = st.rxcount ∧
      zrecLoop limit (zrecTurn updcrc crcLen wrong store) st
          (zdle :: frameend :: (zsendZdleChars check ++ rest)) =
        some (if wrong (check.foldl (fun crc byte => updcrc byte crc) (updcrc frameend st.crc))
          then rtError else gotFrameEnd frameend, after, rest) := by
  rw [zrecLoop_read hplace (zreadByte_frameEnd hend _), zrecTurn_frameEnd hend]
  exact @zrecLoop_check Check updcrc crcLen wrong store limit { st with
    c := gotFrameEnd frameend, crc := updcrc frameend st.crc, flag := true } rest check hplace rfl
    hcheck hcnt

/-- A byte of data either ends the loop with an error or is taken in. -/
def Storing (store : RecState Check → UInt8 → Turn (RecState Check)) : Prop :=
  ∀ st byte, (∃ after, store st byte = .done rtError after) ∨
    ∃ after, store st byte = .goOn after ∧ after.flag = st.flag ∧ after.crc = st.crc ∧
      after.crcCnt = st.crcCnt

theorem zrecLoop_content {content : List UInt8} (hstore : Storing store)
    (hflag : st.flag = false) :
    (∃ after more, zrecLoop limit (zrecTurn updcrc crcLen wrong store) st
        (zsendZdleChars content ++ rest) = some (rtError, after, more)) ∨
      ∃ after, after.flag = false ∧ after.crcCnt = st.crcCnt ∧
        after.crc = content.foldl (fun crc byte => updcrc byte crc) st.crc ∧
        zrecLoop limit (zrecTurn updcrc crcLen wrong store) st
            (zsendZdleChars content ++ rest) =
          zrecLoop limit (zrecTurn updcrc crcLen wrong store) after rest := by
  induction content generalizing st with
  | nil => exact Or.inr ⟨st, hflag, rfl, rfl, rfl⟩
  | cons byte content ih =>
    by_cases hplace : (st.pos : Int) ≤ limit
    · rw [zsendZdleChars_cons, List.append_assoc,
        zrecLoop_read hplace (zreadByte_zdleChar byte _), zrecTurn_byte,
        if_neg (by rw [hflag]; exact Bool.false_ne_true)]
      rcases hstore { st with crc := updcrc byte st.crc } byte with
        ⟨after, hdone⟩ | ⟨after, hgoOn, hflag', hcrc, hcnt⟩
      · rw [hdone]
        exact Or.inl ⟨after, _, rfl⟩
      · rw [hgoOn]
        refine (ih (hflag'.trans hflag)).imp id ?_
        rintro ⟨last, hflag'', hcnt', hcrc', hloop⟩
        refine ⟨last, hflag'', hcnt'.trans hcnt, ?_, hloop⟩
        rw [hcrc', hcrc, List.foldl_cons]
    · refine Or.inl ⟨st, zsendZdleChars (byte :: content) ++ rest, ?_⟩
      rw [zrecLoop, if_neg hplace]

/-- Data that fits into the buffer and is stored as it is. -/
theorem zrecLoop_stored {content : List UInt8} {len : ℕ}
    (hflag : st.flag = false) (hfits : st.pos + content.length ≤ len) :
    ∃ after, after.flag = false ∧ after.crcCnt = st.crcCnt ∧
      after.crc = content.foldl (fun crc byte => updcrc byte crc) st.crc ∧
      after.pos = st.pos + content.length ∧
      after.buf = copyIn st.buf st.pos content ∧
      after.rxcount = st.rxcount + UInt16.ofNat content.length ∧
      zrecLoop len (zrecTurn updcrc crcLen wrong fun st byte => .goOn (st.put byte)) st
          (zsendZdleChars content ++ rest) =
        zrecLoop len (zrecTurn updcrc crcLen wrong fun st byte => .goOn (st.put byte)) after
          rest := by
  induction content generalizing st with
  | nil =>
    exact ⟨st, hflag, rfl, rfl, rfl, Ringbuffer.copyIn_nil.symm, (UInt16.add_zero _).symm, rfl⟩
  | cons byte content ih =>
    rw [List.length_cons] at hfits
    have hplace : (st.pos : Int) ≤ len := by omega
    rw [zsendZdleChars_cons, List.append_assoc,
      zrecLoop_read hplace (zreadByte_zdleChar byte _), zrecTurn_byte,
      if_neg (by rw [hflag]; exact Bool.false_ne_true)]
    obtain ⟨after, hflag', hcnt, hcrc, hpos, hbuf, hcount, hloop⟩ :=
      @ih (({ st with crc := updcrc byte st.crc } : RecState Check).put byte) hflag
        (by change st.pos + 1 + content.length ≤ len; omega)
    refine ⟨after, hflag', hcnt, hcrc, ?_, ?_, ?_, hloop⟩
    · rw [hpos, List.length_cons]
      exact Nat.add_right_comm _ 1 _
    · rw [hbuf, Ringbuffer.copyIn_cons]
      rfl
    · rw [hcount, List.length_cons, Nat.add_comm content.length, UInt16.ofNat_add,
        ← UInt16.add_assoc]
      rfl

end Receive

/-! ## A subpacket arrives -/

/-- What is sent comes back with the code of its frame end, its length and its bytes. -/
def Arrives (mode : CrcMode) (stray : Stray) (beyond : UInt8) (data : List UInt8)
    (frameend : UInt8) (buf : ℕ → UInt8) (len : ℕ) (rest : List UInt8) : Prop :=
  ∃ got, zgetData mode stray buf len (zsendBinData mode beyond data frameend ++ rest) = some got ∧
    got.code = gotFrameEnd frameend ∧ got.rxcount.toNat = data.length ∧
    copyOut got.buf 0 data.length = data

variable {stray : Stray} {beyond frameend : UInt8} {data rest : List UInt8} {buf : ℕ → UInt8}
  {len : ℕ}

theorem arrives_crc16 (hend : FrameEnd frameend) (hfits : data.length ≤ len)
    (hlen : len ≤ rxBufferSize) : Arrives .crc16 stray beyond data frameend buf len rest := by
  obtain ⟨more, hsent⟩ := zsendBinData_crc16 beyond frameend data rest
  have hroom : (recStart buf (0 : UInt16) stray).pos + data.length ≤ len := by
    rw [recStart, Nat.zero_add]
    exact hfits
  obtain ⟨mid, hflag, hcnt, hcrc, hpos, hbuf, hcount, hloop⟩ :=
    @zrecLoop_stored UInt16 updcrc16 2 (· ≠ 0) (recStart buf 0 stray)
      (zdle :: frameend :: (zsendZdleChars (check16 (crc16Of (data ++ [frameend]) 0)) ++ more))
      data len rfl hroom
  have hplace : (mid.pos : Int) ≤ len := by
    rw [hpos]
    exact_mod_cast hroom
  have hsome : check16 (crc16Of (data ++ [frameend]) 0) ≠ [] := List.cons_ne_nil _ _
  have hcheck : mid.crcCnt + (check16 (crc16Of (data ++ [frameend]) 0)).length = 2 := by
    rw [hcnt]
    rfl
  obtain ⟨after, hbuf', hcount', hdone⟩ :=
    @zrecLoop_frameEnd UInt16 updcrc16 2 (· ≠ 0) (fun st byte => .goOn (st.put byte)) len mid more
      frameend _ hend hplace hsome hcheck
  have hregister : updcrc16 frameend mid.crc = crc16Of (data ++ [frameend]) 0 := by
    rw [hcrc, crc16Of, List.foldl_append]
    rfl
  have hclear : (check16 (crc16Of (data ++ [frameend]) 0)).foldl
      (fun crc byte => updcrc16 byte crc) (updcrc16 frameend mid.crc) = 0 := by
    rw [hregister]
    exact crc16Of_check _
  refine ⟨⟨gotFrameEnd frameend, after.buf, after.rxcount⟩, ?_, rfl, ?_, ?_⟩
  · rw [zgetData, hsent, subpacket, zrecData16, hloop, hdone, hclear]
    rfl
  · rw [hcount', hcount]
    change (0 + UInt16.ofNat data.length).toNat = _
    rw [UInt16.zero_add, UInt16.toNat_ofNat']
    exact Nat.mod_eq_of_lt (by rw [rxBufferSize] at hlen; omega)
  · rw [hbuf', hbuf]
    exact Ringbuffer.copyOut_copyIn buf 0 data

/-- With 32 check bits a right subpacket ends in an error, wherever the loop ends. -/
theorem zrecLoop_crc32 {store : RecState UInt32 → UInt8 → Turn (RecState UInt32)} {limit : Int}
    {content : List UInt8} (hstore : Storing store) (hend : FrameEnd frameend) :
    ∃ after more, zrecLoop limit
        (zrecTurn updcrc32 4 (fun crc => crc &&& 0xdebb20e3 ≠ 0) store)
        (recStart buf 0xffffffff stray)
        (subpacket content frameend
          (Crc.lowBytes 4 (~~~crc32Of (content ++ [frameend]) 0xffffffff)) rest) =
      some (rtError, after, more) := by
  rw [subpacket]
  rcases @zrecLoop_content UInt32 updcrc32 4 (fun crc => crc &&& 0xdebb20e3 ≠ 0) store limit
      (recStart buf 0xffffffff stray) _ content hstore rfl with
    herror | ⟨mid, hflag, hcnt, hcrc, hloop⟩
  · exact herror
  · rw [hloop]
    have hregister : updcrc32 frameend mid.crc = crc32Of (content ++ [frameend]) 0xffffffff := by
      rw [hcrc, crc32Of, Crc.absorb_append]
      rfl
    generalize crc32Of (content ++ [frameend]) 0xffffffff = register at hregister ⊢
    by_cases hplace : (mid.pos : Int) ≤ limit
    · have hsome : Crc.lowBytes 4 (~~~register) ≠ [] := List.cons_ne_nil _ _
      have hcheck : mid.crcCnt + (Crc.lowBytes 4 (~~~register)).length = 4 := by
        rw [hcnt]
        rfl
      obtain ⟨after, -, -, hdone⟩ :=
        @zrecLoop_frameEnd UInt32 updcrc32 4 (fun crc => crc &&& 0xdebb20e3 ≠ 0) store limit mid
          rest frameend _ hend hplace hsome hcheck
      have hresidue : (Crc.lowBytes 4 (~~~register)).foldl
          (fun crc byte => updcrc32 byte crc) (updcrc32 frameend mid.crc) = 0xdebb20e3 := by
        rw [hregister]
        exact crc32Of_check register
      rw [hresidue] at hdone
      exact ⟨after, rest, hdone⟩
    · rw [zrecLoop, if_neg hplace]
      exact ⟨mid, _, rfl⟩

theorem storing_put {Check : Type} :
    Storing fun (st : RecState Check) byte => .goOn (st.put byte) :=
  fun st byte => Or.inr ⟨st.put byte, rfl, rfl, rfl, rfl⟩

theorem putDown_frame {Check : Type} (st : RecState Check) (res : ℕ) :
    (st.putDown res).flag = st.flag ∧ (st.putDown res).crc = st.crc ∧
      (st.putDown res).crcCnt = st.crcCnt := by
  induction res generalizing st with
  | zero => exact ⟨rfl, rfl, rfl⟩
  | succ res ih => exact ih (st.put (UInt8.ofNat res))

theorem storing_spaces (len : ℕ) (st : RecState UInt32) (c : Int) (res : UInt8) :
    (∃ after, zrecSpaces len st c res = .done rtError after) ∨
      ∃ after, zrecSpaces len st c res = .goOn after ∧ after.flag = st.flag ∧
        after.crc = st.crc ∧ after.crcCnt = st.crcCnt := by
  rw [zrecSpaces]
  split
  · exact Or.inl ⟨_, rfl⟩
  · exact Or.inr ⟨_, rfl, putDown_frame st res.toNat⟩

theorem storing_32r (len : ℕ) : Storing (zrecStore32r len) := by
  intro st res
  rw [zrecStore32r]
  split
  · split
    · exact Or.inr ⟨_, rfl, rfl, rfl, rfl⟩
    · exact Or.inr ⟨_, rfl, rfl, rfl, rfl⟩
  · split
    · split
      · exact storing_spaces len st _ _
      · split
        · exact Or.inr ⟨_, rfl, rfl, rfl, rfl⟩
        · exact Or.inr ⟨_, rfl, rfl, rfl, rfl⟩
    · split
      · exact Or.inl ⟨_, rfl⟩
      · exact storing_spaces len st _ _

theorem not_arrives_crc32 (hend : FrameEnd frameend) :
    ¬ Arrives .crc32 stray beyond data frameend buf len rest := by
  rintro ⟨got, hgot, hcode, -⟩
  obtain ⟨more, hsent⟩ := zsendBinData_crc32 beyond frameend data rest
  obtain ⟨after, left, herror⟩ := @zrecLoop_crc32 stray frameend more buf _ (stray.p + len) data
    storing_put hend
  rw [hsent, zgetData, zrecData32, herror] at hgot
  have hwrong : rtError = gotFrameEnd frameend := by
    rw [← hcode, ← Option.some.inj hgot]
  rcases hend with rfl | rfl | rfl | rfl <;> exact absurd hwrong (by decide)

theorem not_arrives_crc32Rle (hend : FrameEnd frameend) :
    ¬ Arrives .crc32Rle stray beyond data frameend buf len rest := by
  rintro ⟨got, hgot, hcode, -⟩
  obtain ⟨content, more, hsent⟩ := zsendBinData_crc32Rle beyond frameend data rest
  obtain ⟨after, left, herror⟩ := @zrecLoop_crc32 stray frameend more buf _ len content
    (storing_32r len) hend
  rw [hsent, zgetData, zrecData32r, herror] at hgot
  have hwrong : rtError = gotFrameEnd frameend := by
    rw [← hcode, ← Option.some.inj hgot]
  rcases hend with rfl | rfl | rfl | rfl <;> exact absurd hwrong (by decide)

/-- A data subpacket comes back as it was sent with 16 check bits, and never with 32. -/
theorem data_subpacket_arrives (mode : CrcMode) (stray : Stray) (beyond frameend : UInt8)
    (data rest : List UInt8) (buf : ℕ → UInt8) (len : ℕ) (hend : FrameEnd frameend)
    (hfits : data.length ≤ len) (hlen : len ≤ rxBufferSize) :
    Arrives mode stray beyond data frameend buf len rest ↔ mode = .crc16 := by
  cases mode with
  | crc16 => exact ⟨fun _ => rfl, fun _ => arrives_crc16 hend hfits hlen⟩
  | crc32 => exact ⟨fun harrives => absurd harrives (not_arrives_crc32 hend), nofun⟩
  | crc32Rle => exact ⟨fun harrives => absurd harrives (not_arrives_crc32Rle hend), nofun⟩

theorem data_subpacket_arrives_oneByte :
    Arrives .crc16 ⟨0, 0⟩ 0 [0x18] zcrcw (fun _ => 0) rxBufferSize [] :=
  (data_subpacket_arrives .crc16 ⟨0, 0⟩ 0 zcrcw [0x18] [] (fun _ => 0) rxBufferSize
    (Or.inr (Or.inr (Or.inr rfl))) (by decide) (Nat.le_refl _)).2 rfl

/-- One byte with 32 check bits, read with `p` where it should be. -/
theorem data_subpacket_lost :
    ¬ Arrives .crc32 ⟨0, 0⟩ 0 [0x61] zcrcw (fun _ => 0) rxBufferSize [] :=
  not_arrives_crc32 (Or.inr (Or.inr (Or.inr rfl)))

end RtThread.Zmodem
