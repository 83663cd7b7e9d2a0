import RtThread.Heap.SmallMem
import RtThread.Drivers.Ringbuffer

set_option linter.all false

/-!
# Passing a log to the back-ends

`ulog_output_to_all_backend` passes one message to every registered back-end.  A back-end that
does not support colour gets it without the colour sequences, by moving the pointer that all
back-ends share.
-/

namespace RtThread.Ulog

open RtThread.Ringbuffer (copyIn copyOut)

def csiStart : List UInt8 := [0x1b, 0x5b]
def csiEnd : List UInt8 := [0x1b, 0x5b, 0x30, 0x6d]
def lvlDbg : ℕ := 7

/-- The options of a build; a colour is `none` where the macro is `NULL`. -/
structure Config where
  wordSize : ℕ
  wordSize_gt : csiEnd.length < wordSize
  usingColor : Bool
  usingSyslog : Bool
  lineBufSize : ℕ
  colorAssert : Option (List UInt8)
  colorError : Option (List UInt8)
  colorWarn : Option (List UInt8)
  colorInfo : Option (List UInt8)
  colorDebug : Option (List UInt8)

/-- The colours that are the default, on a machine of 32 bits. -/
def defaultConfig : Config where
  wordSize := 2 ^ 32
  wordSize_gt := by decide
  usingColor := true
  usingSyslog := false
  lineBufSize := 128
  colorAssert := some [0x33, 0x35, 0x6d]
  colorError := some [0x33, 0x31, 0x6d]
  colorWarn := some [0x33, 0x33, 0x6d]
  colorInfo := some [0x33, 0x32, 0x6d]
  colorDebug := none

namespace Config

variable (cfg : Config)

def colorOutputInfo (level : ℕ) : Option (List UInt8) :=
  [cfg.colorAssert, none, none, cfg.colorError, cfg.colorWarn, none, cfg.colorInfo,
    cfg.colorDebug].getD level none

/-- `size -= taken` on a `rt_size_t`. -/
def sub (size taken : ℕ) : ℕ :=
  (size + (cfg.wordSize - taken % cfg.wordSize)) % cfg.wordSize

/-- The build in which the back-ends are told apart. -/
def recalculates : Bool :=
  cfg.usingColor && !cfg.usingSyslog

end Config

structure UlogBackend where
  name : String
  supportColor : Bool

/-- A call of a back-end's `output`: `log` is the distance of the pointer from the message, and
`contents` are the bytes that it and `size` delimit. -/
structure Output where
  backend : UlogBackend
  level : ℕ
  tag : Option (List UInt8)
  isRaw : Bool
  log : ℕ
  size : ℕ
  contents : List UInt8

structure RtUlog where
  initOk : Bool
  backendList : List UlogBackend

/-- What is the same for all back-ends; `log` is the memory from the message on. -/
structure Message where
  level : ℕ
  tag : Option (List UInt8)
  isRaw : Bool
  log : ℕ → UInt8
  size : ℕ

def Message.bytes (msg : Message) : List UInt8 :=
  copyOut msg.log 0 msg.size

def Message.output (msg : Message) (backend : UlogBackend) (log size : ℕ) : Output :=
  ⟨backend, msg.level, msg.tag, msg.isRaw, log, size, copyOut msg.log log size⟩

/-- The loop over the back-ends, with `log` moved so far.  There is no result where `rt_strlen`
reads through `NULL`. -/
def outputToBackends (cfg : Config) (msg : Message) (log : ℕ) :
    List UlogBackend → Option (List Output)
  | [] => some []
  | backend :: rest =>
    if !cfg.recalculates ∨ backend.supportColor then
      (outputToBackends cfg msg log rest).map (msg.output backend log msg.size :: ·)
    else
      match cfg.colorOutputInfo msg.level with
      | none => none
      | some color =>
        if color.length ≠ 0 then
          let colorHdrLen := csiStart.length + color.length
          let log := log + colorHdrLen
          let outputSize := cfg.sub msg.size (colorHdrLen + csiEnd.length)
          (outputToBackends cfg msg log rest).map (msg.output backend log outputSize :: ·)
        else (outputToBackends cfg msg log rest).map (msg.output backend log msg.size :: ·)

def ulogOutputToAllBackend (cfg : Config) (ulog : RtUlog) (msg : Message) :
    Option (List Output) :=
  if !ulog.initOk then some [] else outputToBackends cfg msg 0 ulog.backendList

/-- `fmt_result` becomes the length of a raw message. -/
def rawLength (cfg : Config) (fmtResult : Int) : ℕ :=
  if fmtResult > -1 ∧ fmtResult ≤ cfg.lineBufSize then fmtResult.toNat else cfg.lineBufSize

/-- `ulog_raw` behind the formatting, with its output at once. -/
def ulogRaw (cfg : Config) (ulog : RtUlog) (logBuf : ℕ → UInt8) (fmtResult : Int) :
    Option (List Output) :=
  ulogOutputToAllBackend cfg ulog ⟨lvlDbg, none, true, logBuf, rawLength cfg fmtResult⟩

/-! ## What a back-end should get -/

/-- The colour start sequence of a level, if messages of the level have one. -/
def Config.startSign (cfg : Config) (level : ℕ) : Option (List UInt8) :=
  if cfg.recalculates then (cfg.colorOutputInfo level).map (csiStart ++ ·) else none

/-- How many bytes the start sequence takes at the start of a message. -/
def startLength (start bytes : List UInt8) : ℕ :=
  if start <+: bytes then start.length else 0

/-- How many bytes the end sequence takes at the end of what follows. -/
def endLength (bytes : List UInt8) : ℕ :=
  if csiEnd <:+ bytes then csiEnd.length else 0

/-- What one back-end should get: it depends on that back-end and on the message. -/
def ownOutput (cfg : Config) (msg : Message) (backend : UlogBackend) : Output :=
  match cfg.startSign msg.level with
  | none => msg.output backend 0 msg.size
  | some start =>
    if backend.supportColor then msg.output backend 0 msg.size
    else
      let skipped := startLength start msg.bytes
      let body := msg.bytes.drop skipped
      let size := body.length - endLength body
      ⟨backend, msg.level, msg.tag, msg.isRaw, skipped, size, body.take size⟩

def BackendsIndependent (cfg : Config) (ulog : RtUlog) (msg : Message) : Prop :=
  ulogOutputToAllBackend cfg ulog msg =
    some (if ulog.initOk then ulog.backendList.map (ownOutput cfg msg) else [])

/-- The colour sequences are there to be removed, and the back-end that they are removed for is
the last one. -/
def RemovedForLast (msg : Message) (color : List UInt8) (backends : List UlogBackend) : Prop :=
  color ≠ [] ∧ (∃ body, msg.bytes = (csiStart ++ color) ++ (body ++ csiEnd)) ∧
    ∀ backend ∈ backends.dropLast, backend.supportColor

/-- There is nothing to remove. -/
def NothingRemoved (msg : Message) (color : List UInt8) : Prop :=
  color = [] ∧ ¬ csiStart <+: msg.bytes ∧ ¬ csiEnd <:+ msg.bytes

/-- The loop does what it should. -/
def ColorsRemoved (cfg : Config) (msg : Message) (backends : List UlogBackend) : Prop :=
  !cfg.recalculates ∨ (∀ backend ∈ backends, backend.supportColor) ∨
    ∃ color, cfg.colorOutputInfo msg.level = some color ∧
      (NothingRemoved msg color ∨ RemovedForLast msg color backends)

/-! ## One turn of the loop -/

variable {cfg : Config} {msg : Message} {log : ℕ} {backend : UlogBackend}
  {rest : List UlogBackend} {color : List UInt8}

theorem Message.bytes_length (msg : Message) : msg.bytes.length = msg.size := by
  rw [Message.bytes, copyOut, List.length_map, List.length_range]

theorem Message.bytes_slice (msg : Message) (start size : ℕ) (hfits : start + size ≤ msg.size) :
    (msg.bytes.drop start).take size = copyOut msg.log start size := by
  obtain ⟨behind, hbehind⟩ := Nat.exists_eq_add_of_le hfits
  have hstart : (copyOut msg.log 0 start).length = start := by
    rw [copyOut, List.length_map, List.length_range]
  have hsize : (copyOut msg.log (0 + start) size).length = size := by
    rw [copyOut, List.length_map, List.length_range]
  rw [Message.bytes, hbehind, Nat.add_assoc, Ringbuffer.copyOut_add, List.drop_left' hstart,
    Ringbuffer.copyOut_add, List.take_left' hsize, Nat.zero_add]

theorem outputToBackends_whole (hwhole : !cfg.recalculates ∨ backend.supportColor) :
    outputToBackends cfg msg log (backend :: rest) =
      (outputToBackends cfg msg log rest).map (msg.output backend log msg.size :: ·) := by
  rw [outputToBackends, if_pos hwhole]

theorem ownOutput_whole (hwhole : !cfg.recalculates ∨ backend.supportColor) :
    ownOutput cfg msg backend = msg.output backend 0 msg.size := by
  rw [ownOutput, Config.startSign]
  rcases hwhole with hbuild | hcolor
  · have hnot : ¬ cfg.recalculates = true := by simpa using hbuild
    rw [if_neg hnot]
  · split
    · rfl
    · rw [if_pos hcolor]

theorem outputToBackends_null (hnot : ¬ (!cfg.recalculates ∨ backend.supportColor))
    (hcolor : cfg.colorOutputInfo msg.level = none) :
    outputToBackends cfg msg log (backend :: rest) = none := by
  rw [outputToBackends, if_neg hnot, hcolor]

theorem outputToBackends_plain (hnot : ¬ (!cfg.recalculates ∨ backend.supportColor))
    (hcolor : cfg.colorOutputInfo msg.level = some []) :
    outputToBackends cfg msg log (backend :: rest) =
      (outputToBackends cfg msg log rest).map (msg.output backend log msg.size :: ·) := by
  rw [outputToBackends, if_neg hnot, hcolor]
  rfl

/-- The pointer moves, for this back-end and for all behind it. -/
theorem outputToBackends_moved (hnot : ¬ (!cfg.recalculates ∨ backend.supportColor))
    (hcolor : cfg.colorOutputInfo msg.level = some color) (hnonempty : color ≠ []) :
    outputToBackends cfg msg log (backend :: rest) =
      (outputToBackends cfg msg (log + (csiStart ++ color).length) rest).map
        (msg.output backend (log + (csiStart ++ color).length)
          (cfg.sub msg.size ((csiStart ++ color).length + csiEnd.length)) :: ·) := by
  have hlength : color.length ≠ 0 := by simpa using hnonempty
  rw [outputToBackends, if_neg hnot, hcolor]
  simp only [if_pos hlength, List.length_append]

theorem ownOutput_removed (hnot : ¬ (!cfg.recalculates ∨ backend.supportColor))
    (hcolor : cfg.colorOutputInfo msg.level = some color) :
    ownOutput cfg msg backend =
      let skipped := startLength (csiStart ++ color) msg.bytes
      let body := msg.bytes.drop skipped
      let size := body.length - endLength body
      ⟨backend, msg.level, msg.tag, msg.isRaw, skipped, size, body.take size⟩ := by
  obtain ⟨hbuild, hplain⟩ := not_or.1 hnot
  have hrecalculates : cfg.recalculates = true := by simpa using hbuild
  rw [ownOutput, Config.startSign, if_pos hrecalculates, hcolor]
  exact if_neg hplain

theorem startLength_le (start bytes : List UInt8) : startLength start bytes ≤ start.length := by
  rw [startLength]
  split_ifs
  · exact le_rfl
  · exact Nat.zero_le _

theorem endLength_le (bytes : List UInt8) : endLength bytes ≤ bytes.length := by
  rw [endLength]
  split_ifs with hsuffix
  · exact hsuffix.length_le
  · exact Nat.zero_le _

theorem csiStart_pos (color : List UInt8) : 0 < (csiStart ++ color).length := by
  rw [List.length_append]
  exact Nat.lt_of_lt_of_le (by decide : 0 < csiStart.length) (Nat.le_add_right _ _)

/-- With an empty colour the pointer stays, which is right when there is nothing to remove. -/
theorem plain_own (hnot : ¬ (!cfg.recalculates ∨ backend.supportColor))
    (hcolor : cfg.colorOutputInfo msg.level = some []) :
    msg.output backend 0 msg.size = ownOutput cfg msg backend ↔ NothingRemoved msg [] := by
  rw [ownOutput_removed hnot hcolor, List.append_nil]
  dsimp only
  constructor
  · intro heq
    have hskipped : 0 = startLength csiStart msg.bytes := congrArg Output.log heq
    have hsize : msg.size = (msg.bytes.drop (startLength csiStart msg.bytes)).length -
        endLength (msg.bytes.drop (startLength csiStart msg.bytes)) := congrArg Output.size heq
    rw [← hskipped, List.drop_zero, msg.bytes_length] at hsize
    refine ⟨rfl, ?_, ?_⟩
    · intro hprefix
      rw [startLength, if_pos hprefix] at hskipped
      exact absurd hskipped (by decide)
    · intro hsuffix
      have hlength := hsuffix.length_le
      rw [endLength, if_pos hsuffix] at hsize
      rw [msg.bytes_length] at hlength
      have hfour : csiEnd.length = 4 := rfl
      omega
  · rintro ⟨-, hprefix, hsuffix⟩
    rw [startLength, if_neg hprefix, List.drop_zero, endLength, if_neg hsuffix, Nat.sub_zero,
      List.take_length, msg.bytes_length]
    rfl

/-- The length that is left, when both sequences are there and when only the first one is. -/
theorem Config.sub_eq_iff (cfg : Config) {size start kept : ℕ} (hsize : size < cfg.wordSize)
    (hstart : start ≤ size) (hkept : kept ≤ csiEnd.length)
    (hshort : size < start + csiEnd.length → kept = 0) :
    cfg.sub size (start + csiEnd.length) = size - start - kept ↔ kept = csiEnd.length := by
  have hword := cfg.wordSize_gt
  have hfour : 0 < csiEnd.length := by decide
  rw [Config.sub]
  generalize csiEnd.length = four at *
  by_cases hlong : start + four ≤ size
  · have hmod : (start + four) % cfg.wordSize = start + four := Nat.mod_eq_of_lt (by omega)
    have hsum : size + (cfg.wordSize - (start + four)) =
        size - (start + four) + cfg.wordSize := by omega
    rw [hmod, hsum, Nat.add_mod_right, Nat.mod_eq_of_lt (by omega)]
    omega
  · -- without the end sequence the length would have to wrap to where it started
    have hzero := hshort (by omega)
    have hne : (size + (cfg.wordSize - (start + four) % cfg.wordSize)) % cfg.wordSize ≠
        size - start - kept := by
      rcases Nat.lt_or_ge (start + four) cfg.wordSize with hlt | hge
      · rw [Nat.mod_eq_of_lt hlt, Nat.mod_eq_of_lt (by omega)]
        omega
      · have hmod : (start + four) % cfg.wordSize = start + four - cfg.wordSize := by
          rw [Nat.mod_eq_sub_mod hge, Nat.mod_eq_of_lt (by omega)]
        have hsum : size + (cfg.wordSize - (start + four - cfg.wordSize)) =
            size - (start + four - cfg.wordSize) + cfg.wordSize := by omega
        rw [hmod, hsum, Nat.add_mod_right, Nat.mod_eq_of_lt (by omega)]
        omega
    constructor
    · intro heq
      exact absurd heq hne
    · omega

/-- The pointer is moved to where it should be when both sequences are there. -/
theorem moved_own (hnot : ¬ (!cfg.recalculates ∨ backend.supportColor))
    (hcolor : cfg.colorOutputInfo msg.level = some color) (hsize : msg.size < cfg.wordSize) :
    msg.output backend (csiStart ++ color).length
        (cfg.sub msg.size ((csiStart ++ color).length + csiEnd.length)) =
      ownOutput cfg msg backend ↔
    ∃ body, msg.bytes = (csiStart ++ color) ++ (body ++ csiEnd) := by
  rw [ownOutput_removed hnot hcolor]
  dsimp only
  have hpos := csiStart_pos color
  generalize csiStart ++ color = start at hpos ⊢
  constructor
  · intro heq
    have hskipped : start.length = startLength start msg.bytes := congrArg Output.log heq
    have hsub : cfg.sub msg.size (start.length + csiEnd.length) =
        (msg.bytes.drop (startLength start msg.bytes)).length -
          endLength (msg.bytes.drop (startLength start msg.bytes)) := congrArg Output.size heq
    have hprefix : start <+: msg.bytes := by
      by_contra hnone
      rw [startLength, if_neg hnone] at hskipped
      omega
    obtain ⟨tail, htail⟩ := hprefix
    have hlength : msg.size = start.length + tail.length := by
      rw [← msg.bytes_length, ← htail, List.length_append]
    rw [← hskipped, ← htail, List.drop_left] at hsub
    have hkept := endLength_le tail
    have hend : endLength tail = csiEnd.length := by
      refine (cfg.sub_eq_iff hsize (by omega) ?_ ?_).1 (hsub.trans (by omega))
      · rw [endLength]
        split_ifs
        · exact le_rfl
        · exact Nat.zero_le _
      · intro hshort
        rw [endLength, if_neg]
        intro hsuffix
        have := hsuffix.length_le
        omega
    have hsuffix : csiEnd <:+ tail := by
      by_contra hnone
      rw [endLength, if_neg hnone] at hend
      exact absurd hend (by decide)
    obtain ⟨body, rfl⟩ := hsuffix
    exact ⟨body, htail.symm⟩
  · rintro ⟨body, hbytes⟩
    have hprefix : start <+: msg.bytes := ⟨body ++ csiEnd, hbytes.symm⟩
    have hsuffix : csiEnd <:+ body ++ csiEnd := ⟨body, rfl⟩
    have hlength : msg.size = start.length + (body.length + csiEnd.length) := by
      rw [← msg.bytes_length, hbytes, List.length_append, List.length_append]
    have hskipped : startLength start msg.bytes = start.length := by
      rw [startLength, if_pos hprefix]
    have hdrop : msg.bytes.drop start.length = body ++ csiEnd := by
      rw [hbytes, List.drop_left]
    have hend : endLength (body ++ csiEnd) = csiEnd.length := by
      rw [endLength, if_pos hsuffix]
    have hsub : cfg.sub msg.size (start.length + csiEnd.length) = body.length := by
      refine ((cfg.sub_eq_iff hsize (by omega) le_rfl ?_).2 rfl).trans (by omega)
      intro hshort
      omega
    have hslice := msg.bytes_slice start.length body.length (by omega)
    rw [hdrop] at hslice
    rw [hskipped, hdrop, hend, hsub, List.length_append, Nat.add_sub_cancel, hslice]
    rfl

/-- Once the pointer was moved, no back-end gets what it should. -/
theorem moved_rest (hmoved : (csiStart ++ color).length ≤ log)
    (hcolor : cfg.colorOutputInfo msg.level = some color) (hnonempty : color ≠ [])
    (hrest : outputToBackends cfg msg log rest = some (rest.map (ownOutput cfg msg))) :
    rest = [] := by
  cases rest with
  | nil => rfl
  | cons backend rest =>
    exfalso
    have hpos := csiStart_pos color
    by_cases hwhole : !cfg.recalculates ∨ backend.supportColor
    · rw [outputToBackends_whole hwhole, List.map_cons, ownOutput_whole hwhole,
        Option.map_eq_some_iff] at hrest
      obtain ⟨outputs, -, houtputs⟩ := hrest
      have hlog : log = 0 := congrArg Output.log (List.cons.inj houtputs).1
      omega
    · rw [outputToBackends_moved hwhole hcolor hnonempty, List.map_cons,
        ownOutput_removed hwhole hcolor, Option.map_eq_some_iff] at hrest
      obtain ⟨outputs, -, houtputs⟩ := hrest
      have hlog : log + (csiStart ++ color).length = startLength (csiStart ++ color) msg.bytes :=
        congrArg Output.log (List.cons.inj houtputs).1
      have hle := startLength_le (csiStart ++ color) msg.bytes
      omega

/-! ## The loop -/

theorem map_cons_eq_some {first first' : Output} {outputs : Option (List Output)}
    {rest' : List Output} :
    outputs.map (first :: ·) = some (first' :: rest') ↔ first = first' ∧ outputs = some rest' := by
  rw [Option.map_eq_some_iff]
  constructor
  · rintro ⟨rest, hrest, heq⟩
    obtain ⟨rfl, rfl⟩ := List.cons.inj heq
    exact ⟨rfl, hrest⟩
  · rintro ⟨rfl, hrest⟩
    exact ⟨rest', hrest, rfl⟩

theorem colorsRemoved_whole (hwhole : !cfg.recalculates ∨ backend.supportColor) :
    ColorsRemoved cfg msg (backend :: rest) ↔ ColorsRemoved cfg msg rest := by
  by_cases hbuild : (!cfg.recalculates) = true
  · exact ⟨fun _ => .inl hbuild, fun _ => .inl hbuild⟩
  have hcolor := hwhole.resolve_left hbuild
  have hlast : ∀ color, RemovedForLast msg color (backend :: rest) ↔
      RemovedForLast msg color rest := by
    intro color
    cases rest with
    | nil => exact Iff.rfl
    | cons next rest =>
      simp only [RemovedForLast, List.dropLast_cons_cons, List.forall_mem_cons, hcolor, true_and]
  simp only [ColorsRemoved, List.forall_mem_cons, hcolor, true_and, hlast]

theorem colorsRemoved_lacking (hnot : ¬ (!cfg.recalculates ∨ backend.supportColor)) :
    ColorsRemoved cfg msg (backend :: rest) ↔
      ∃ color, cfg.colorOutputInfo msg.level = some color ∧
        (NothingRemoved msg color ∨ RemovedForLast msg color (backend :: rest)) := by
  obtain ⟨hbuild, hcolor⟩ := not_or.1 hnot
  constructor
  · rintro (h | h | h)
    · exact absurd h hbuild
    · exact absurd (h backend List.mem_cons_self) hcolor
    · exact h
  · exact fun h => .inr (.inr h)

/-- Only a back-end without colour that is the last of the list gets the sequences removed. -/
theorem removedForLast_lacking (hcolor : ¬ backend.supportColor = true) :
    RemovedForLast msg color (backend :: rest) ↔ color ≠ [] ∧
      (∃ body, msg.bytes = (csiStart ++ color) ++ (body ++ csiEnd)) ∧ rest = [] := by
  cases rest with
  | nil => simp [RemovedForLast]
  | cons next rest =>
    simp only [RemovedForLast, List.dropLast_cons_cons, List.forall_mem_cons, hcolor,
      Bool.false_eq_true, false_and, and_false, reduceCtorEq]

theorem outputToBackends_iff (hsize : msg.size < cfg.wordSize) (backends : List UlogBackend) :
    outputToBackends cfg msg 0 backends = some (backends.map (ownOutput cfg msg)) ↔
      ColorsRemoved cfg msg backends := by
  induction backends with
  | nil =>
    refine ⟨fun _ => .inr (.inl ?_), fun _ => rfl⟩
    rintro backend ⟨⟩
  | cons backend rest ih =>
    by_cases hwhole : !cfg.recalculates ∨ backend.supportColor
    · rw [outputToBackends_whole hwhole, List.map_cons, map_cons_eq_some,
        ownOutput_whole hwhole, colorsRemoved_whole hwhole, ih]
      exact and_iff_right rfl
    have hlacking := (not_or.1 hwhole).2
    rw [colorsRemoved_lacking hwhole]
    cases hcolor : cfg.colorOutputInfo msg.level with
    | none =>
      rw [outputToBackends_null hwhole hcolor]
      simp
    | some color =>
      simp only [Option.some.injEq, exists_eq_left']
      rw [removedForLast_lacking hlacking, List.map_cons]
      by_cases hempty : color = []
      · subst hempty
        rw [outputToBackends_plain hwhole hcolor, map_cons_eq_some,
          plain_own hwhole hcolor, ih]
        constructor
        · exact fun h => .inl h.1
        · rintro (hnothing | hlast)
          · exact ⟨hnothing, .inr (.inr ⟨[], hcolor, .inl hnothing⟩)⟩
          · exact absurd rfl hlast.1
      · rw [outputToBackends_moved hwhole hcolor hempty, map_cons_eq_some, Nat.zero_add,
          moved_own hwhole hcolor hsize]
        constructor
        · rintro ⟨hbody, hrest⟩
          exact .inr ⟨hempty, hbody, moved_rest le_rfl hcolor hempty hrest⟩
        · rintro (hnothing | ⟨-, hbody, rfl⟩)
          · exact absurd hnothing.1 hempty
          · exact ⟨hbody, rfl⟩

/-- What the back-ends get is what each of them should get, exactly when nothing is to be removed
or the only back-end that it is removed for is the last one. -/
theorem backends_independent (cfg : Config) (ulog : RtUlog) (msg : Message)
    (hsize : msg.size < cfg.wordSize) :
    BackendsIndependent cfg ulog msg ↔
      ulog.initOk = false ∨ ColorsRemoved cfg msg ulog.backendList := by
  rw [BackendsIndependent, ulogOutputToAllBackend]
  cases ulog.initOk with
  | false => simp
  | true =>
    rw [← outputToBackends_iff hsize]
    simp

/-- An error message of one letter, in red. -/
def redMessage : Message where
  level := 3
  tag := some [0x61]
  isRaw := false
  log := fun slot => [0x1b, 0x5b, 0x33, 0x31, 0x6d, 0x78, 0x1b, 0x5b, 0x30, 0x6d].getD slot 0
  size := 10

theorem backends_independent_lastPlain :
    BackendsIndependent defaultConfig ⟨true, [⟨"console", true⟩, ⟨"file", false⟩]⟩ redMessage :=
  (backends_independent defaultConfig ⟨true, [⟨"console", true⟩, ⟨"file", false⟩]⟩ redMessage
    (by decide)).2 (.inr (.inr (.inr ⟨[0x33, 0x31, 0x6d], rfl, .inr ⟨by decide,
      ⟨[0x78], by decide⟩, by decide⟩⟩)))

/-- Behind a back-end without colour the console gets the message from its sixth byte on, and five
bytes from behind it. -/
theorem message_moved :
    (ulogOutputToAllBackend defaultConfig ⟨true, [⟨"file", false⟩, ⟨"console", true⟩]⟩
        redMessage).map (List.map fun output => (output.log, output.size, output.contents)) =
      some [(5, 1, [0x78]), (5, 10, [0x78, 0x1b, 0x5b, 0x30, 0x6d, 0, 0, 0, 0, 0])] ∧
    ¬ BackendsIndependent defaultConfig ⟨true, [⟨"file", false⟩, ⟨"console", true⟩]⟩
      redMessage := by
  have hgot : (ulogOutputToAllBackend defaultConfig ⟨true, [⟨"file", false⟩, ⟨"console", true⟩]⟩
      redMessage).map (List.map fun output => (output.log, output.size, output.contents)) =
        some [(5, 1, [0x78]), (5, 10, [0x78, 0x1b, 0x5b, 0x30, 0x6d, 0, 0, 0, 0, 0])] := by
    decide
  refine ⟨hgot, ?_⟩
  intro hindependent
  rw [hindependent] at hgot
  revert hgot
  decide

theorem isSome_outputToBackends {msg : Message} (log : ℕ) {backends : List UlogBackend}
    (hsupport : ∀ backend ∈ backends, backend.supportColor = true) :
    (outputToBackends cfg msg log backends).isSome := by
  induction backends with
  | nil => rfl
  | cons backend rest ih =>
    obtain ⟨hfirst, hrest⟩ := List.forall_mem_cons.1 hsupport
    rw [outputToBackends_whole (.inr hfirst), Option.isSome_map]
    exact ih hrest

/-- The back-ends in front of the first one without colour are served. -/
theorem outputToBackends_lacking {msg : Message} (log : ℕ) (hbuild : cfg.recalculates = true)
    (hlevel : cfg.colorOutputInfo msg.level = none) {backends : List UlogBackend}
    (hlacking : ∃ backend ∈ backends, backend.supportColor = false) :
    outputToBackends cfg msg log backends = none := by
  induction backends with
  | nil =>
    obtain ⟨backend, hmem, -⟩ := hlacking
    cases hmem
  | cons backend rest ih =>
    by_cases hwhole : !cfg.recalculates ∨ backend.supportColor
    · have hsupports : backend.supportColor = true := by simpa [hbuild] using hwhole
      have hrest : ∃ backend ∈ rest, backend.supportColor = false := by
        simpa [hsupports] using hlacking
      rw [outputToBackends_whole hwhole, ih hrest, Option.map_none]
    · exact outputToBackends_null hwhole hlevel

end RtThread.Ulog
