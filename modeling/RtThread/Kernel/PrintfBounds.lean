import RtThread.Kernel.Printf

set_option linter.all false

/-!
# Formatted printing into a buffer of any size

What is printed does not depend on the buffer: every function prints symbols only through single
guarded writes, the digits of a number fit their array, and the cursor of the format never passes
the closing zero.
-/

namespace RtThread.Printf

open RtThread.Core

variable {cfg : Config} {fmt : List UInt8} {args : ℕ → Arg} {here : Cursors} {spec : Spec}
  {c : UInt8} {pos fuel num base : ℕ}

/-! ## Loops -/

theorem padDown_emits (c : UInt8) (low : Int) (turns : ℕ) (count : Int) :
    Emits (padDown c low turns count) fun _ => True := by
  induction turns generalizing count with
  | zero => exact Emits.pure trivial
  | succ turns ih =>
    exact Emits.ite (fun _ => (Emits.put c).bind fun _ _ => ih _) fun _ => Emits.pure trivial

theorem padWhile_emits (c : UInt8) (low count : Int) :
    Emits (padWhile c low count) fun _ => True :=
  padDown_emits c low _ count

theorem padBefore_emits (c : UInt8) (turns : ℕ) (count : Int) :
    Emits (padBefore c turns count) fun _ => True := by
  induction turns generalizing count with
  | zero => exact Emits.pure trivial
  | succ turns ih =>
    exact Emits.ite (fun _ => (Emits.put c).bind fun _ _ => ih _) fun _ => Emits.pure trivial

theorem padWhileBefore_emits (c : UInt8) (count : Int) :
    Emits (padWhileBefore c count) fun _ => True :=
  padBefore_emits c _ count

theorem putAll_emits (symbols : List UInt8) : Emits (putAll symbols) fun _ => True := by
  induction symbols with
  | nil => exact Emits.pure trivial
  | cons symbol symbols ih => exact (Emits.put symbol).bind fun _ _ => ih

/-! ## Numbers -/

/-- A number has no more digits than its array has room for. -/
theorem digitsLoop_isSome {large : Bool} {left : ℕ} {tmp : List UInt8}
    (hnum : num < (if base = 10 then 10 else 16) ^ left) :
    ∃ digits, digitsLoop large base left num tmp = some digits := by
  induction left generalizing num tmp with
  | zero =>
    have hzero : num = 0 := by
      rw [pow_zero] at hnum
      omega
    exact ⟨tmp, by rw [digitsLoop, if_pos hzero]⟩
  | succ left ih =>
    rw [digitsLoop]
    split_ifs with hzero hbase
    · exact ⟨tmp, rfl⟩
    · rw [if_pos hbase, pow_succ] at hnum
      exact ih (by rw [if_pos hbase]; omega)
    · rw [if_neg hbase, pow_succ] at hnum
      exact ih (by rw [if_neg hbase]; omega)

theorem numBits_le (cfg : Config) : cfg.numBits = 32 ∨ cfg.numBits = 64 := by
  rw [Config.numBits, Config.longBits]
  split_ifs
  · exact .inr rfl
  · exact .inr rfl
  · exact .inl rfl

theorem signOf_lt {type : Flags} (hnum : num < 2 ^ cfg.numBits) :
    (signOf cfg num type).2 < 2 ^ cfg.numBits := by
  rw [signOf]
  split_ifs with _ hnegative
  · have hpos : 0 < 2 ^ (cfg.numBits - 1) := Nat.two_pow_pos _
    dsimp only
    omega
  all_goals exact hnum

/-- A number of 32 bits has an amount of 32 bits, whatever the width of `long` is. -/
theorem signOf_lt_small {type : Flags} (hnum : num < 2 ^ 32) :
    (signOf cfg num type).2 < 2 ^ 32 := by
  rcases numBits_le cfg with hbits | hbits
  · rw [← hbits] at hnum ⊢
    exact signOf_lt hnum
  · rw [signOf, hbits]
    split_ifs with _ hnegative
    · omega
    all_goals exact hnum

/-- The numbers that `print_number` is called with. -/
structure Printable (cfg : Config) (num base : ℕ) : Prop where
  num_lt : num < 2 ^ cfg.numBits
  decimal : base = 10 → cfg.printfLonglong = false → num < 2 ^ 32

theorem numberDigits_isSome {type : Flags} (hprintable : Printable cfg num base) :
    ∃ digits, numberDigits cfg type.large base (signOf cfg num type).2 = some digits := by
  rw [numberDigits]
  split_ifs with hzero
  · exact ⟨_, rfl⟩
  refine digitsLoop_isSome ?_
  have hlt := @signOf_lt cfg num type hprintable.num_lt
  have hle : 2 ^ cfg.numBits ≤ 2 ^ 64 := by
    refine Nat.pow_le_pow_right (by decide) ?_
    rcases numBits_le cfg with hbits | hbits <;> omega
  split_ifs with hbase
  · rw [Config.tmpSize]
    split_ifs with hlonglong
    · exact (hlt.trans_le hle).trans (by norm_num)
    · have hsmall := @signOf_lt_small cfg num type
        (hprintable.decimal hbase (Bool.eq_false_iff.2 hlonglong))
      exact hsmall.trans (by norm_num)
  · rw [Config.tmpSize]
    split_ifs with hlonglong
    · exact (hlt.trans_le hle).trans (by norm_num)
    · exact (hlt.trans_le hle).trans_le (by norm_num)

theorem printSpecial_emits (type : Flags) : Emits (printSpecial cfg base type) fun _ => True :=
  Emits.ite (fun _ => Emits.ite (fun _ => Emits.put _) fun _ =>
    Emits.ite (fun _ => (Emits.put _).bind fun _ _ => Emits.put _) fun _ => Emits.pure trivial)
      fun _ => Emits.pure trivial

theorem putSign_emits (sign : Option UInt8) (size : Int) :
    Emits (putSign sign size) fun _ => True := by
  cases sign with
  | none => exact Emits.pure trivial
  | some sign => exact (Emits.put sign).bind fun _ _ => Emits.pure trivial

theorem printNumber_emits (hprintable : Printable cfg num base) (s precision : Int)
    (type : Flags) : Emits (printNumber cfg num base s precision type) fun _ => True := by
  obtain ⟨digits, hdigits⟩ := @numberDigits_isSome cfg num base type hprintable
  rw [printNumber]
  generalize signOf cfg num type = signed at hdigits ⊢
  obtain ⟨sign, amount⟩ := signed
  refine (Emits.lift hdigits).bind fun tmp _ => ?_
  refine @Emits.bind _ _ _ (fun _ => True) _ _ _ ?_ fun size _ => ?_
  · exact Emits.ite (fun _ => padWhile_emits _ _ _) fun _ => Emits.pure trivial
  refine (putSign_emits sign size).bind fun size _ => ?_
  refine (printSpecial_emits type).bind fun _ _ => ?_
  refine @Emits.bind _ _ _ (fun _ => True) _ _ _ ?_ fun size _ => ?_
  · exact Emits.ite (fun _ => padWhile_emits _ _ _) fun _ => Emits.pure trivial
  refine (padWhile_emits _ _ _).bind fun _ _ => ?_
  refine (putAll_emits _).bind fun _ _ => ?_
  exact (padWhile_emits _ _ _).bind fun _ _ => Emits.pure trivial

/-! ## Conversions -/

theorem printChar_emits (spec : Spec) (c : UInt8) : Emits (printChar spec c) fun _ => True := by
  rw [printChar]
  refine @Emits.bind _ _ _ (fun _ => True) _ _ _ ?_ fun width _ => ?_
  · exact Emits.ite (fun _ => padWhileBefore_emits _ _) fun _ => Emits.pure trivial
  refine (Emits.put c).bind fun _ _ => ?_
  exact (padWhileBefore_emits _ _).bind fun _ _ => Emits.pure trivial

theorem printString_emits (spec : Spec) (string : Option (List UInt8)) :
    Emits (printString spec string) fun _ => True := by
  rw [printString]
  refine @Emits.bind _ _ _ (fun _ => True) _ _ _ ?_ fun width _ => ?_
  · exact Emits.ite (fun _ => padWhile_emits _ _ _) fun _ => Emits.pure trivial
  refine (putAll_emits _).bind fun _ _ => ?_
  exact (padWhile_emits _ _ _).bind fun _ _ => Emits.pure trivial

theorem signExtend_lt {numBits bits value : ℕ} (hbits : bits ≤ numBits)
    (hvalue : value < 2 ^ bits) : signExtend numBits bits value < 2 ^ numBits := by
  have hpow : 2 ^ bits ≤ 2 ^ numBits := Nat.pow_le_pow_right (by decide) hbits
  rw [signExtend]
  split_ifs
  · omega
  · exact hvalue.trans_le hpow

theorem printPointer_emits (spec : Spec) (arg : Arg) :
    Emits (printPointer cfg spec arg) fun _ => True := by
  have hbits : cfg.longBits ≤ cfg.numBits := by
    rw [Config.numBits]
    split_ifs
    · rw [Config.longBits]
      split_ifs <;> decide
    · exact le_rfl
  have hprintable : Printable cfg
      (signExtend cfg.numBits cfg.longBits (arg.word % 2 ^ cfg.longBits)) 16 :=
    ⟨signExtend_lt hbits (Nat.mod_lt _ (Nat.two_pow_pos _)), fun hbase => nomatch hbase⟩
  exact Emits.ite (fun _ => printNumber_emits hprintable _ _ _)
    fun _ => printNumber_emits hprintable _ _ _

theorem numOf_lt (cfg : Config) (qualifier : Qualifier) (sign : Bool) (arg : Arg) :
    numOf cfg qualifier sign arg < 2 ^ if cfg.printfLonglong then 64 else 32 := by
  have hbits : 32 ≤ if cfg.printfLonglong then 64 else 32 := by split_ifs <;> decide
  have huint : arg.uint32 < 2 ^ 32 := Nat.mod_lt _ (by decide)
  have hpow : 2 ^ 32 ≤ 2 ^ if cfg.printfLonglong then 64 else 32 :=
    Nat.pow_le_pow_right (by decide) hbits
  generalize hwidth : (if cfg.printfLonglong then 64 else 32) = bits at hbits hpow ⊢
  have hplain : (if sign then signExtend bits 32 arg.uint32 else arg.uint32) < 2 ^ bits := by
    split_ifs
    · exact signExtend_lt hbits huint
    · exact huint.trans_le hpow
  cases qualifier with
  | L =>
    rw [numOf, hwidth]
    exact Nat.mod_lt _ (Nat.two_pow_pos _)
  | h =>
    rw [numOf, hwidth]
    have hshort : arg.uint32 % 2 ^ 16 < 2 ^ 16 := Nat.mod_lt _ (by decide)
    split_ifs
    · exact signExtend_lt (by omega) hshort
    · omega
  | l =>
    unfold numOf
    rw [hwidth]
    exact hplain
  | none =>
    unfold numOf
    rw [hwidth]
    exact hplain

theorem printInteger_emits (spec : Spec) (base : ℕ) (flags : Flags) (arg : Arg) :
    Emits (printInteger cfg spec base flags arg) fun _ => True := by
  have hlt := numOf_lt cfg spec.qualifier flags.sign arg
  refine printNumber_emits ⟨hlt.trans_le ?_, fun _ hlonglong => ?_⟩ _ _ _
  · refine Nat.pow_le_pow_right (by decide) ?_
    rw [Config.numBits, Config.longBits]
    split_ifs <;> decide
  · rw [hlonglong] at hlt
    exact hlt

/-! ## The cursor of the format -/

theorem deref_isSome (hpos : pos ≤ fmt.length) : ∃ c, deref fmt pos = some c := by
  have hlt : pos < (fmt ++ [0]).length := by simpa using Nat.lt_succ_of_le hpos
  exact ⟨_, List.getElem?_eq_getElem hlt⟩

/-- A byte that is not zero is in front of the closing zero. -/
theorem lt_of_deref (hderef : deref fmt pos = some c) (hc : c ≠ 0) : pos < fmt.length := by
  by_contra hge
  rw [deref, List.getElem?_append_right (by omega)] at hderef
  obtain hlast | hbehind : pos - fmt.length = 0 ∨ 1 ≤ pos - fmt.length := by omega
  · rw [hlast] at hderef
    exact hc (Option.some.inj hderef).symm
  · rw [List.getElem?_eq_none (by simpa using hbehind)] at hderef
    cases hderef

theorem processFlags_isSome {flags : Flags} (hpos : pos < fmt.length)
    (hfuel : fmt.length ≤ pos + fuel) :
    ∃ flags' next, processFlags fmt fuel pos flags = some (flags', next) ∧
      pos < next ∧ next ≤ fmt.length := by
  induction fuel generalizing pos flags with
  | zero => omega
  | succ fuel ih =>
    obtain ⟨c, hc⟩ := deref_isSome (show pos + 1 ≤ fmt.length from hpos)
    have hflag : ∀ {flags'}, c ≠ 0 → ∃ flags'' next,
        processFlags fmt fuel (pos + 1) flags' = some (flags'', next) ∧
          pos < next ∧ next ≤ fmt.length := by
      intro flags' hne
      obtain ⟨flags'', next, hrun, hlt, hle⟩ := @ih (pos + 1) flags' (lt_of_deref hc hne)
        (by omega)
      exact ⟨flags'', next, hrun, by omega, hle⟩
    rw [processFlags, hc, Option.bind_eq_bind, Option.bind_some]
    split_ifs with hminus hplus hblank hhash hzero
    · exact hflag (by rw [hminus]; decide)
    · exact hflag (by rw [hplus]; decide)
    · exact hflag (by rw [hblank]; decide)
    · exact hflag (by rw [hhash]; decide)
    · exact hflag (by rw [hzero]; decide)
    · exact ⟨flags, pos + 1, rfl, by omega, hpos⟩

theorem ne_zero_of_isDigit (hdigit : isDigit c = true) : c ≠ 0 := by
  rintro rfl
  revert hdigit
  decide

theorem skipAtoi_isSome {i : Int} (hpos : pos ≤ fmt.length) (hfuel : fmt.length < pos + fuel) :
    ∃ value next, skipAtoi fmt fuel pos i = some (value, next) ∧
      pos ≤ next ∧ next ≤ fmt.length := by
  induction fuel generalizing pos i with
  | zero => omega
  | succ fuel ih =>
    obtain ⟨c, hc⟩ := deref_isSome hpos
    rw [skipAtoi, hc, Option.bind_eq_bind, Option.bind_some]
    split_ifs with hdigit
    · have hlt := lt_of_deref hc (ne_zero_of_isDigit hdigit)
      obtain ⟨value, next, hrun, hge, hle⟩ :=
        @ih (pos + 1) (int32 (i * 10 + c.toNat - 0x30)) hlt (by omega)
      exact ⟨value, next, hrun, by omega, hle⟩
    · exact ⟨i, pos, rfl, le_rfl, hpos⟩

theorem getWidth_isSome {flags : Flags} (hpos : here.pos ≤ fmt.length) :
    ∃ width flags' next, getWidth fmt args here flags = some (width, flags', next) ∧
      here.pos ≤ next.pos ∧ next.pos ≤ fmt.length := by
  obtain ⟨c, hc⟩ := deref_isSome hpos
  rw [getWidth, hc, Option.bind_eq_bind, Option.bind_some]
  split_ifs with hdigit hstar
  · obtain ⟨width, next, hrun, hge, hle⟩ :=
      @skipAtoi_isSome fmt here.pos (fuelOf fmt) 0 hpos (by rw [fuelOf]; omega)
    exact ⟨width, flags, { here with pos := next }, by rw [hrun]; rfl, hge, hle⟩
  · have hlt := lt_of_deref hc (by rw [hstar]; decide)
    dsimp only
    split_ifs
    · exact ⟨_, _, _, rfl, Nat.le_succ _, hlt⟩
    · exact ⟨_, _, _, rfl, Nat.le_succ _, hlt⟩
  · exact ⟨_, _, _, rfl, le_rfl, hpos⟩

theorem getPrecision_isSome (hpos : here.pos ≤ fmt.length) :
    ∃ precision next, getPrecision fmt args here = some (precision, next) ∧
      here.pos ≤ next.pos ∧ next.pos ≤ fmt.length := by
  obtain ⟨c, hc⟩ := deref_isSome hpos
  rw [getPrecision, hc, Option.bind_eq_bind, Option.bind_some]
  split_ifs with hdot
  · have hlt := lt_of_deref hc (by rw [hdot]; decide)
    obtain ⟨c', hc'⟩ := deref_isSome (show here.pos + 1 ≤ fmt.length from hlt)
    rw [hc', Option.bind_some]
    split_ifs with hdigit hstar
    · obtain ⟨precision, next, hrun, hge, hle⟩ :=
        @skipAtoi_isSome fmt (here.pos + 1) (fuelOf fmt) 0 hlt (by rw [fuelOf]; omega)
      rw [hrun]
      exact ⟨_, { here with pos := next }, rfl, (Nat.le_succ _).trans hge, hle⟩
    · have hlt' := lt_of_deref hc' (by rw [hstar]; decide)
      exact ⟨_, ⟨here.pos + 2, here.arg + 1⟩, rfl, Nat.le_add_right _ _, hlt'⟩
    · exact ⟨_, { here with pos := here.pos + 1 }, rfl, Nat.le_succ _, hlt⟩
  · exact ⟨_, here, rfl, le_rfl, hpos⟩

theorem getQualifier_isSome (hpos : pos ≤ fmt.length) :
    ∃ qualifier next, getQualifier cfg fmt pos = some (qualifier, next) ∧
      pos ≤ next ∧ next ≤ fmt.length := by
  obtain ⟨c, hc⟩ := deref_isSome hpos
  rw [getQualifier, hc, Option.bind_eq_bind, Option.bind_some]
  split_ifs with hshort hlong hlonglong
  · exact ⟨_, _, rfl, Nat.le_succ _, lt_of_deref hc (by rw [hshort]; decide)⟩
  · have hlt := lt_of_deref hc (by rw [hlong]; decide)
    obtain ⟨c', hc'⟩ := deref_isSome (show pos + 1 ≤ fmt.length from hlt)
    rw [hc', Option.bind_some]
    split_ifs with htwice
    · exact ⟨_, _, rfl, Nat.le_add_right _ _, lt_of_deref hc' (by rw [htwice.2]; decide)⟩
    · exact ⟨_, _, rfl, Nat.le_succ _, hlt⟩
  · exact ⟨_, _, rfl, Nat.le_succ _, lt_of_deref hc (by rw [hlonglong.2]; decide)⟩
  · exact ⟨_, _, rfl, le_rfl, hpos⟩

/-- The scanners of a conversion go on from its percent sign, at most to the closing zero. -/
theorem getSpec_isSome (hpos : here.pos < fmt.length) :
    ∃ spec, getSpec cfg fmt args here = some spec ∧
      here.pos < spec.cursors.pos ∧ spec.cursors.pos ≤ fmt.length := by
  obtain ⟨flags, pos, hflags, hlt, hle⟩ :=
    @processFlags_isSome fmt here.pos (fuelOf fmt) noFlags hpos (by rw [fuelOf]; omega)
  obtain ⟨width, flags', next, hwidth, hge, hle⟩ :=
    @getWidth_isSome fmt args { here with pos } flags hle
  obtain ⟨precision, next', hprecision, hge', hle⟩ := @getPrecision_isSome fmt args next hle
  obtain ⟨qualifier, last, hqualifier, hge'', hle⟩ :=
    @getQualifier_isSome cfg fmt next'.pos hle
  refine ⟨⟨flags', width, precision, qualifier, { next' with pos := last }⟩, ?_, ?_, hle⟩
  · simp only [getSpec, hflags, hwidth, hprecision, hqualifier, Option.bind_eq_bind,
      Option.bind_some]
    rfl
  · change pos ≤ next.pos at hge
    change here.pos < last
    omega

/-! ## The whole format -/

/-- A conversion ends behind its percent sign, and the next byte may be read. -/
theorem convert_emits (hpos : pos < spec.cursors.pos) (hle : spec.cursors.pos ≤ fmt.length)
    (hderef : deref fmt spec.cursors.pos = some c) :
    Emits (convert cfg args spec c) fun next => pos < next.pos + 1 ∧ next.pos + 1 ≤ fmt.length :=
      by
  have hnext : c ≠ 0 → pos < spec.cursors.pos + 1 ∧ spec.cursors.pos + 1 ≤ fmt.length :=
    fun hc => ⟨by omega, lt_of_deref hderef hc⟩
  rw [convert]
  refine Emits.ite (fun hc => ?_) fun _ => ?_
  · exact (printChar_emits _ _).bind fun _ _ => Emits.pure (hnext (by rw [hc]; decide))
  refine Emits.ite (fun hc => ?_) fun _ => ?_
  · exact (printString_emits _ _).bind fun _ _ => Emits.pure (hnext (by rw [hc]; decide))
  refine Emits.ite (fun hc => ?_) fun _ => ?_
  · exact (printPointer_emits _ _).bind fun _ _ => Emits.pure (hnext (by rw [hc]; decide))
  refine Emits.ite (fun hc => ?_) fun _ => ?_
  · exact (Emits.put _).bind fun _ _ => Emits.pure (hnext (by rw [hc]; decide))
  refine Emits.ite (fun hc => ?_) fun _ => ?_
  · exact (printInteger_emits _ _ _ _).bind fun _ _ => Emits.pure (hnext (by rw [hc]; decide))
  refine Emits.ite (fun hc => ?_) fun _ => ?_
  · exact (printInteger_emits _ _ _ _).bind fun _ _ => Emits.pure (hnext (by rw [hc]; decide))
  refine Emits.ite (fun hc => ?_) fun _ => ?_
  · exact (printInteger_emits _ _ _ _).bind fun _ _ => Emits.pure (hnext (by rw [hc]; decide))
  refine Emits.ite (fun hc => ?_) fun _ => ?_
  · refine (printInteger_emits _ _ _ _).bind fun _ _ => Emits.pure (hnext ?_)
    rcases hc with hc | hc <;> (rw [hc]; decide)
  refine Emits.ite (fun hc => ?_) fun _ => ?_
  · exact (printInteger_emits _ _ _ _).bind fun _ _ => Emits.pure (hnext (by rw [hc]; decide))
  refine (Emits.put _).bind fun _ _ => Emits.ite (fun hc => ?_) fun hc => ?_
  · exact (Emits.put _).bind fun _ _ => Emits.pure (hnext hc)
  · exact Emits.pure ⟨by dsimp only; omega, by dsimp only; omega⟩

theorem formatLoop_emits (hpos : here.pos ≤ fmt.length) (hfuel : fmt.length < here.pos + fuel) :
    Emits (formatLoop cfg fmt args fuel here) fun _ => True := by
  induction fuel generalizing here with
  | zero => omega
  | succ fuel ih =>
    obtain ⟨c, hc⟩ := deref_isSome hpos
    rw [formatLoop]
    refine (Emits.lift hc).bind fun c hc => ?_
    refine Emits.ite (fun _ => Emits.pure trivial) fun hne => ?_
    have hlt := lt_of_deref hc hne
    refine Emits.ite (fun _ => ?_) fun _ => ?_
    · refine (Emits.put c).bind fun _ _ => ih hlt ?_
      dsimp only
      omega
    obtain ⟨spec, hspec, hgt, hle⟩ := @getSpec_isSome cfg fmt args here hlt
    refine (Emits.lift hspec).bind fun spec' hspec' => ?_
    obtain rfl := Option.some.inj (hspec.symm.trans hspec')
    obtain ⟨c', hc'⟩ := deref_isSome hle
    refine (Emits.lift hc').bind fun c' hc' => ?_
    refine (convert_emits hgt hle hc').bind fun next hnext => ih hnext.2 ?_
    dsimp only
    omega

/-! ## Buffers -/

theorem int32_of_lt {value : ℕ} (hvalue : value < 2 ^ 31) : int32 value = value := by
  rw [int32]
  omega

theorem rtVsnprintf_eq (cfg : Config) (fmt : List UInt8) (args : ℕ → Arg) :
    ∃ output : List UInt8, ∀ buf room size,
      rtVsnprintf cfg buf room size fmt args = some (int32 output.length,
        ((⟨buf, 0, min room size⟩ : Printed UInt8).puts output).close 0) := by
  have hpos : (⟨0, 0⟩ : Cursors).pos ≤ fmt.length := Nat.zero_le _
  have hfuel : fmt.length < 0 + fuelOf fmt := by
    rw [fuelOf]
    omega
  obtain ⟨output, result, -, hrun⟩ := @formatLoop_emits cfg fmt args _ _ hpos hfuel
  refine ⟨output, fun buf room size => ?_⟩
  have hsize : (if room < size then room else size) = min room size := by
    split_ifs <;> omega
  have hout := hrun ⟨buf, 0, min room size⟩
  rw [rtVsnprintf, hsize, hout, Option.bind_eq_bind, Option.bind_some]
  dsimp only
  rw [Printed.cursor_puts, Nat.zero_add]
  rfl

/-- A format that ends inside a conversion. -/
example :
    (rtVsnprintf ⟨true, true, false⟩ (fun _ => 0xff) 100 6
      [0x25, 0x23, 0x30, 0x35, 0x78, 0x7c, 0x25, 0x2d, 0x6c] fun _ => ⟨0x2a, none⟩).map
        (fun result => (result.1, (List.range 7).map result.2)) =
      some (7, [0x30, 0x78, 0x30, 0x32, 0x61, 0, 0xff]) := by
  decide

end RtThread.Printf
