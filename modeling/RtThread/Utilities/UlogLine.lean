import RtThread.Kernel.PrintfBounds
import RtThread.Utilities.Ulog

set_option linter.all false

/-!
# The line of a log

`ulog_formater` puts a line together in a buffer of `ULOG_LINE_BUF_SIZE` bytes, and
`ulog_voutput` passes it on when the filters let it through.  A write outside the buffer has no
result, and neither has a string that is `NULL` or does not end in the buffer.
-/

namespace RtThread.Ulog

/-- `ULOG_OUTPUT_TIME`, without and with `ULOG_TIME_USING_TIMESTAMP`. -/
inductive TimeSource
  | off | tick | timestamp
  deriving DecidableEq

/-- The options that decide what a line consists of. -/
structure LineConfig extends Config where
  printf : Printf.Config
  large : 80 ≤ lineBufSize
  small : lineBufSize < 2 ^ 31
  outputTime : TimeSource
  outputLevel : Bool
  outputTag : Bool
  outputThreadName : Bool
  usingFilter : Bool
  usingIsrLog : Bool
  nameMax : ℕ
  filterTagMaxLen : ℕ

/-- The text of the calendar, which has digits and signs in it and no zero. -/
structure Timestamp where
  text : List UInt8
  ne_zero : ∀ ch ∈ text, ch ≠ 0

/-- The state of the system while a line is put together. -/
structure Context where
  interruptNest : ℕ
  tick : ℕ
  timestamp : Timestamp
  threadName : List UInt8

/-- `ULOG_NEWLINE_SIGN`. -/
def newlineSign : List UInt8 := [0x0d, 0x0a]

def levelOutputInfo (level : ℕ) : Option (List UInt8) :=
  [some [0x41, 0x2f], none, none, some [0x45, 0x2f], some [0x57, 0x2f], none, some [0x49, 0x2f],
    some [0x44, 0x2f]].getD level none

/-- The colour of a level in a build that has colours. -/
def LineConfig.levelColor (cfg : LineConfig) (level : ℕ) : Option (List UInt8) :=
  if cfg.usingColor then cfg.colorOutputInfo level else none

/-- What is kept free for the signs at the end. -/
def LineConfig.reserve (cfg : LineConfig) : ℕ :=
  (if cfg.usingColor then csiEnd.length else 0) + newlineSign.length

/-- The line buffer and `log_len`. -/
structure Line where
  buf : List UInt8
  logLen : ℕ

/-- The loop of `ulog_strcpy`: the buffer and the number of copied bytes. -/
def ulogStrcpy (lineBufSize : ℕ) : ℕ → ℕ → List UInt8 → List UInt8 → Option (List UInt8 × ℕ)
  | _, _, [], buf => some (buf, 0)
  | curLen, dst, ch :: src, buf =>
    if curLen < lineBufSize then
      if dst < buf.length then
        (ulogStrcpy lineBufSize (curLen + 1) (dst + 1) src (buf.set dst ch)).map fun copied =>
          (copied.1, copied.2 + 1)
      else none
    else some (buf, 0)

/-- The digits of a number, the last one first. -/
def ultoaDigits (n : ℕ) : List UInt8 :=
  UInt8.ofNat (0x30 + n % 10) :: if n / 10 = 0 then [] else ultoaDigits (n / 10)
termination_by n
decreasing_by omega

/-- What `ulog_ultoa` leaves in front of its zero. -/
def ulogUltoa (n : ℕ) : List UInt8 :=
  (ultoaDigits n).reverse

namespace Line

/-- `log_len += ulog_strcpy(log_len, log_buf + log_len, src)`. -/
def copy (cfg : LineConfig) (src : List UInt8) (line : Line) : Option Line :=
  (ulogStrcpy cfg.lineBufSize line.logLen line.logLen src line.buf).map fun copied =>
    ⟨copied.1, line.logLen + copied.2⟩

/-- Bytes that are written without regard to the size of the buffer. -/
def write (start : ℕ) (bytes : List UInt8) (line : Line) : Option Line :=
  if start + bytes.length ≤ line.buf.length then
    some { line with
      buf := line.buf.take start ++ (bytes ++ line.buf.drop (start + bytes.length)) }
  else none

/-- `log_len += rt_strlen(log_buf + log_len)`. -/
def measure (line : Line) : Option Line :=
  let text := line.buf.drop line.logLen
  if 0 ∈ text then some { line with logLen := line.logLen + (text.takeWhile (· ≠ 0)).length }
  else none

/-- `rt_snprintf` with a text that is known. -/
def print (cfg : LineConfig) (text : List UInt8) (line : Line) : Option Line :=
  let size := cfg.lineBufSize - line.logLen
  if 0 < size then line.write line.logLen (text.take (size - 1) ++ [0]) else some line

/-- `rt_vsnprintf`: `fmt_result` and the buffer. -/
def vprint (cfg : LineConfig) (format : List UInt8) (args : ℕ → Printf.Arg) (line : Line) :
    Option (Int × Line) := do
  let size := cfg.lineBufSize - line.logLen
  let (fmtResult, after) ← Printf.rtVsnprintf cfg.printf
    (fun slot => line.buf.getD (line.logLen + slot) 0) size size format args
  return (fmtResult, { line with
    buf := line.buf.take line.logLen ++ (List.range size).map after })

def addColor (cfg : LineConfig) (level : ℕ) (line : Line) : Option Line :=
  match cfg.levelColor level with
  | none => some line
  | some color => do
      let line ← line.copy cfg csiStart
      line.copy cfg color

def addTime (cfg : LineConfig) (ctx : Context) (line : Line) : Option Line :=
  match cfg.outputTime with
  | .off => some line
  | .tick => do
      let written ← line.write line.logLen (0x5b :: (ulogUltoa ctx.tick ++ [0]))
      let written ← written.write (line.logLen + 1 + (ulogUltoa ctx.tick).length) [0x5d, 0]
      written.measure
  | .timestamp => do
      let line ← line.print cfg ctx.timestamp.text
      line.measure

/-- The blank between two pieces. -/
def addGap (cfg : LineConfig) (condition : Prop) [Decidable condition] (line : Line) :
    Option Line :=
  if condition then line.copy cfg [0x20] else some line

def addLevel (cfg : LineConfig) (level : ℕ) (line : Line) : Option Line :=
  if cfg.outputLevel then do
    let line ← line.addGap cfg (cfg.outputTime ≠ .off)
    let info ← levelOutputInfo level
    line.copy cfg info
  else some line

def addTag (cfg : LineConfig) (tag : List UInt8) (line : Line) : Option Line :=
  if cfg.outputTag then do
    let line ← line.addGap cfg (¬ cfg.outputLevel ∧ cfg.outputTime ≠ .off)
    line.copy cfg tag
  else some line

/-- `rt_thread_self()->name` up to `rt_strnlen`. -/
def nameOf (cfg : LineConfig) (ctx : Context) : List UInt8 :=
  (ctx.threadName.take cfg.nameMax).takeWhile (· ≠ 0)

def addThreadName (cfg : LineConfig) (ctx : Context) (line : Line) : Option Line :=
  if cfg.outputThreadName then do
    let line ← line.addGap cfg
      (cfg.outputTime ≠ .off ∨ cfg.outputLevel ∨ cfg.outputTag)
    if ctx.interruptNest = 0 then do
      let line ← line.write line.logLen (nameOf cfg ctx)
      return { line with logLen := line.logLen + (nameOf cfg ctx).length }
    else line.copy cfg [0x49, 0x53, 0x52]
  else some line

/-- The pieces in front of the text of the log. -/
def addHead (cfg : LineConfig) (ctx : Context) (level : ℕ) (tag : List UInt8) (line : Line) :
    Option Line := do
  let line ← line.addColor cfg level
  let line ← line.addTime cfg ctx
  let line ← line.addLevel cfg level
  let line ← line.addTag cfg tag
  let line ← line.addThreadName cfg ctx
  line.copy cfg [0x3a, 0x20]

/-- The text of the log, which is cut so that the signs at the end find room. -/
def addText (cfg : LineConfig) (format : List UInt8) (args : ℕ → Printf.Arg) (line : Line) :
    Option Line := do
  let (fmtResult, line) ← line.vprint cfg format args
  let logLen := if line.logLen + fmtResult ≤ cfg.lineBufSize ∧ fmtResult > -1 then
    line.logLen + fmtResult.toNat else cfg.lineBufSize
  let logLen := if logLen + cfg.reserve > cfg.lineBufSize then
    cfg.lineBufSize - cfg.reserve else logLen
  return { line with logLen := logLen }

def copyIf (cfg : LineConfig) (condition : Bool) (src : List UInt8) (line : Line) :
    Option Line :=
  if condition then line.copy cfg src else some line

def addSigns (cfg : LineConfig) (level : ℕ) (newline : Bool) (line : Line) : Option Line := do
  let line ← line.copyIf cfg newline newlineSign
  line.copyIf cfg (cfg.levelColor level).isSome csiEnd

end Line

def ulogFormater (cfg : LineConfig) (ctx : Context) (logBuf : List UInt8) (level : ℕ)
    (tag : List UInt8) (newline : Bool) (format : List UInt8) (args : ℕ → Printf.Arg) :
    Option Line :=
  if lvlDbg < level then none
  else do
    let line ← Line.addHead cfg ctx level tag ⟨logBuf, 0⟩
    let line ← line.addText cfg format args
    line.addSigns cfg level newline

/-- `ulog.filter`; a tag has its own level when it is in the list. -/
structure Filter where
  tagLvlList : List (List UInt8 × ℕ)
  level : ℕ
  tag : List UInt8
  keyword : List UInt8

/-- `ulog_tag_lvl_filter_get`. -/
def tagLvlFilterGet (cfg : LineConfig) (filter : Filter) (tag : List UInt8) : ℕ :=
  ((filter.tagLvlList.find? fun entry =>
    entry.1.take cfg.filterTagMaxLen = tag.take cfg.filterTagMaxLen).map Prod.snd).getD 7

/-- A line that is not put together: the level or the tag is filtered out. -/
def filteredOut (cfg : LineConfig) (filter : Filter) (level : ℕ) (tag : List UInt8) : Prop :=
  cfg.usingFilter = true ∧
    (level > filter.level ∨ level > tagLvlFilterGet cfg filter tag ∨ ¬ filter.tag <:+: tag)

instance (cfg : LineConfig) (filter : Filter) (level : ℕ) (tag : List UInt8) :
    Decidable (filteredOut cfg filter level tag) :=
  inferInstanceAs (Decidable (_ ∧ _))

/-- The keyword filter, which closes the line with a zero. -/
def keywordFilter (cfg : LineConfig) (filter : Filter) (line : Line) : Option (Option Line) :=
  if cfg.usingFilter ∧ filter.keyword ≠ [] then do
    let line ← line.write line.logLen [0]
    return if filter.keyword <:+: line.buf.takeWhile (· ≠ 0) then some line else none
  else some (some line)

/-- The line that is passed to `do_output`, if one is. -/
def ulogVoutput (cfg : LineConfig) (ulog : RtUlog) (filter : Filter) (ctx : Context)
    (logBuf : List UInt8) (level : ℕ) (tag : List UInt8) (newline : Bool) (format : List UInt8)
    (args : ℕ → Printf.Arg) : Option (Option Line) :=
  if lvlDbg < level then none
  else if !ulog.initOk then some none
  else if filteredOut cfg filter level tag then some none
  else if ctx.interruptNest ≠ 0 ∧ !cfg.usingIsrLog then none
  else do
    let line ← ulogFormater cfg ctx logBuf level tag newline format args
    keywordFilter cfg filter line

/-! ## The untruncated message -/

section Message

variable (cfg : LineConfig) (ctx : Context) (level : ℕ) (tag : List UInt8)

def startText : List UInt8 :=
  match cfg.levelColor level with
  | none => []
  | some color => csiStart ++ color

def timeText : List UInt8 :=
  match cfg.outputTime with
  | .off => []
  | .tick => 0x5b :: (ulogUltoa ctx.tick ++ [0x5d])
  | .timestamp => ctx.timestamp.text

def levelText : List UInt8 :=
  if cfg.outputLevel then
    (if cfg.outputTime ≠ .off then [0x20] else []) ++ (levelOutputInfo level).getD []
  else []

def tagText : List UInt8 :=
  if cfg.outputTag then
    (if ¬ cfg.outputLevel ∧ cfg.outputTime ≠ .off then [0x20] else []) ++ tag
  else []

/-- The blank in front of the name of the thread. -/
def nameGap : List UInt8 :=
  if cfg.outputTime ≠ .off ∨ cfg.outputLevel ∨ cfg.outputTag then [0x20] else []

def nameText : List UInt8 :=
  if cfg.outputThreadName then
    nameGap cfg ++ if ctx.interruptNest = 0 then Line.nameOf cfg ctx else [0x49, 0x53, 0x52]
  else []

/-- What stands in front of the name of the thread. -/
def beforeName : List UInt8 :=
  startText cfg level ++ timeText cfg ctx ++ levelText cfg level ++ tagText cfg tag

/-- What stands in front of the text of the log. -/
def headText : List UInt8 :=
  beforeName cfg ctx level tag ++ nameText cfg ctx ++ [0x3a, 0x20]

end Message

/-- The line is in the buffer, and it is the start of the message with the signs behind it. -/
structure LineHolds (cfg : LineConfig) (level : ℕ) (newline : Bool) (message : List UInt8)
    (line : Line) : Prop where
  size : line.buf.length = cfg.lineBufSize
  logLen : line.logLen ≤ cfg.lineBufSize
  text : ∃ front, front <+: message ∧
    line.buf.take line.logLen = front ++ ((if newline then newlineSign else []) ++
      if (cfg.levelColor level).isSome then csiEnd else [])

/-- What is copied without a check fits: the time, and the name of the thread. -/
structure Fits (cfg : LineConfig) (ctx : Context) (level : ℕ) (tag : List UInt8) : Prop where
  level_le : level ≤ lvlDbg
  info : cfg.outputLevel = true → (levelOutputInfo level).isSome
  tick : cfg.outputTime = .tick →
    (startText cfg level).length + (ulogUltoa ctx.tick).length + 3 ≤ cfg.lineBufSize
  timestamp : cfg.outputTime = .timestamp →
    (startText cfg level).length < cfg.lineBufSize
  name : cfg.outputThreadName = true → ctx.interruptNest = 0 → Line.nameOf cfg ctx ≠ [] →
    (beforeName cfg ctx level tag ++ nameGap cfg).length +
      (Line.nameOf cfg ctx).length ≤ cfg.lineBufSize

/-! ## Copies -/

theorem ulogStrcpy_append {lineBufSize : ℕ} (w rest src : List UInt8)
    (hsize : w.length + rest.length = lineBufSize) :
    ulogStrcpy lineBufSize w.length w.length src (w ++ rest) =
      some (w ++ src.take rest.length ++ rest.drop src.length, min src.length rest.length) := by
  induction src generalizing w rest with
  | nil => simp [ulogStrcpy]
  | cons ch src ih =>
    rw [ulogStrcpy]
    cases rest with
    | nil =>
      rw [if_neg (by simp at hsize; omega)]
      simp
    | cons old rest =>
      rw [List.length_cons] at hsize
      have hset : (w ++ old :: rest).set w.length ch = (w ++ [ch]) ++ rest := by simp
      have hlength : w.length + 1 = (w ++ [ch]).length := by simp
      rw [if_pos (by omega), if_pos (by simp), hset, hlength,
        ih (w ++ [ch]) rest (by rw [← hlength]; omega)]
      simp [Nat.add_min_add_right]

/-- The first places of the buffer, and the others. -/
structure Split (cfg : LineConfig) (w : List UInt8) (line : Line) : Prop where
  logLen : line.logLen = w.length
  buf : ∃ rest, line.buf = w ++ rest ∧ w.length + rest.length = cfg.lineBufSize

variable {cfg : LineConfig} {ctx : Context} {level : ℕ} {tag w msg : List UInt8} {line : Line}

theorem Split.length_le (hsplit : Split cfg w line) : w.length ≤ cfg.lineBufSize := by
  obtain ⟨rest, -, hsize⟩ := hsplit.buf
  omega

theorem Split.copy (hsplit : Split cfg w line) (src : List UInt8) :
    ∃ next, line.copy cfg src = some next ∧
      Split cfg (w ++ src.take (cfg.lineBufSize - w.length)) next := by
  obtain ⟨hlogLen, rest, hbuf, hsize⟩ := hsplit
  have hroom : cfg.lineBufSize - w.length = rest.length := by omega
  rw [Line.copy, hlogLen, hbuf, ulogStrcpy_append w rest src hsize, hroom]
  refine ⟨_, rfl, ?_, rest.drop src.length, rfl, ?_⟩
  · simp [Nat.min_comm]
  · rw [List.length_append, List.length_take, List.length_drop]
    omega

theorem write_eq {front rest bytes : List UInt8} (hbuf : line.buf = front ++ rest)
    (hfits : bytes.length ≤ rest.length) :
    line.write front.length bytes =
      some { line with buf := front ++ (bytes ++ rest.drop bytes.length) } := by
  rw [Line.write, hbuf, if_pos (by rw [List.length_append]; omega), List.take_left,
    List.drop_length_add_append]

theorem write_outside {start : ℕ} {bytes : List UInt8}
    (hlong : line.buf.length < start + bytes.length) : line.write start bytes = none :=
  if_neg (Nat.not_le.2 hlong)

theorem Split.length_buf (hsplit : Split cfg w line) :
    line.buf.length = cfg.lineBufSize := by
  obtain ⟨-, rest, hbuf, hsize⟩ := hsplit
  rw [hbuf, List.length_append, hsize]

/-- The buffer holds as much of the message as there is room for; its last place may have lost
its byte to a zero. -/
structure Held (cfg : LineConfig) (msg : List UInt8) (line : Line) : Prop where
  split : ∃ w, Split cfg w line ∧ w.length = min msg.length cfg.lineBufSize ∧
    w.take (cfg.lineBufSize - 1) = msg.take (cfg.lineBufSize - 1)

/-- The same behind a text that was cut in front of a zero. -/
def Nearly (cfg : LineConfig) (msg : List UInt8) (line : Line) : Prop :=
  Held cfg msg line ∨ cfg.lineBufSize ≤ msg.length ∧
    Split cfg (msg.take (cfg.lineBufSize - 1)) line

theorem take_append_eq {size : ℕ} (hpos : 0 < size) (src : List UInt8)
    (hlength : w.length = min msg.length size) (htake : w.take (size - 1) = msg.take (size - 1)) :
    (w ++ src.take (size - w.length)).take (size - 1) = (msg ++ src).take (size - 1) := by
  by_cases hshort : msg.length < size
  · have hsame : w = msg := by
      rwa [List.take_of_length_le (by omega), List.take_of_length_le (by omega)] at htake
    subst hsame
    rw [List.take_append, List.take_append, List.take_take, Nat.min_eq_left (by omega)]
  · rw [List.take_append_of_le_length (by omega), List.take_append_of_le_length (by omega), htake]

theorem Held.copy (hheld : Held cfg msg line) (src : List UInt8) :
    ∃ next, line.copy cfg src = some next ∧ Held cfg (msg ++ src) next := by
  have hlarge := cfg.large
  obtain ⟨w, hsplit, hlength, htake⟩ := hheld.split
  obtain ⟨next, hcopy, hnext⟩ := hsplit.copy src
  refine ⟨next, hcopy, ⟨_, hnext, ?_, take_append_eq (by omega) src hlength htake⟩⟩
  rw [List.length_append, List.length_append, List.length_take]
  omega

/-- Something is always copied behind a text that was cut. -/
theorem Nearly.copy (hnearly : Nearly cfg msg line) {src : List UInt8} (hsrc : src ≠ []) :
    ∃ next, line.copy cfg src = some next ∧ Held cfg (msg ++ src) next := by
  have hlarge := cfg.large
  rcases hnearly with hheld | ⟨hlong, hsplit⟩
  · exact hheld.copy src
  · obtain ⟨next, hcopy, hnext⟩ := hsplit.copy src
    have hpos := List.length_pos_iff.2 hsrc
    have hcut : (msg.take (cfg.lineBufSize - 1)).length = cfg.lineBufSize - 1 := by
      rw [List.length_take]
      omega
    refine ⟨next, hcopy, ⟨_, hnext, ?_, ?_⟩⟩
    · rw [List.length_append, List.length_append, hcut, List.length_take]
      omega
    · rw [List.take_append_of_le_length (by omega), List.take_take, Nat.min_self,
        List.take_append_of_le_length (by omega)]

/-- With room left, the buffer holds the whole of the message. -/
theorem Held.split_of_lt (hheld : Held cfg msg line) (hroom : msg.length < cfg.lineBufSize) :
    Split cfg msg line := by
  obtain ⟨w, hsplit, hlength, htake⟩ := hheld.split
  rw [List.take_of_length_le (by omega), List.take_of_length_le (by omega)] at htake
  exact htake ▸ hsplit

theorem Split.held (hsplit : Split cfg msg line) : Held cfg msg line :=
  ⟨msg, hsplit, (Nat.min_eq_left hsplit.length_le).symm, rfl⟩

/-! ## The pieces -/

theorem Held.addColor (hheld : Held cfg [] line) :
    ∃ next, line.addColor cfg level = some next ∧
      Held cfg (startText cfg level) next := by
  rw [Line.addColor, startText]
  cases cfg.levelColor level with
  | none => exact ⟨line, rfl, hheld⟩
  | some color =>
    obtain ⟨mid, hcsi, hmid⟩ := hheld.copy csiStart
    obtain ⟨next, hcolor, hnext⟩ := hmid.copy color
    refine ⟨next, ?_, hnext⟩
    dsimp only
    rw [hcsi]
    exact hcolor

theorem measure_eq {text rest : List UInt8} (hlogLen : line.logLen = w.length)
    (hbuf : line.buf = w ++ (text ++ 0 :: rest)) (htext : ∀ ch ∈ text, ch ≠ 0) :
    line.measure = some { line with logLen := (w ++ text).length } := by
  have hdrop : line.buf.drop line.logLen = text ++ 0 :: rest := by
    rw [hlogLen, hbuf, List.drop_left]
  have htake : (text ++ 0 :: rest).takeWhile (· ≠ 0) = text := by
    rw [List.takeWhile_append_of_pos (by simpa using htext)]
    simp
  rw [Line.measure, hdrop, if_pos (by simp), htake, hlogLen, List.length_append]

theorem ultoaDigits_ne_zero (n : ℕ) : ∀ ch ∈ ultoaDigits n, ch ≠ 0 := by
  induction n using Nat.strong_induction_on with
  | _ n ih =>
    rw [ultoaDigits]
    refine List.forall_mem_cons.2 ⟨fun hzero => ?_, ?_⟩
    · have hvalue := congrArg UInt8.toNat hzero
      rw [UInt8.toNat_ofNat'] at hvalue
      change (0x30 + n % 10) % 256 = 0 at hvalue
      omega
    · split_ifs with hlast
      · exact fun _ hnone => absurd hnone List.not_mem_nil
      · exact ih (n / 10) (by omega)

theorem Held.addTick (hheld : Held cfg msg line) (htick : cfg.outputTime = .tick)
    (hroom : msg.length + (ulogUltoa ctx.tick).length + 3 ≤ cfg.lineBufSize) :
    ∃ next, line.addTime cfg ctx = some next ∧
      Held cfg (msg ++ timeText cfg ctx) next := by
  have hsplit := hheld.split_of_lt (by omega)
  have hdigits : ∀ ch ∈ ulogUltoa ctx.tick, ch ≠ 0 := fun ch hch =>
    ultoaDigits_ne_zero ctx.tick ch (List.mem_reverse.1 hch)
  rw [Line.addTime, timeText, htick]
  dsimp only
  generalize ulogUltoa ctx.tick = digits at hroom hdigits
  obtain ⟨buf, logLen⟩ := line
  obtain ⟨hlogLen, rest, hbuf, hsize⟩ := hsplit
  dsimp only at hlogLen hbuf
  subst hlogLen hbuf
  have hfits : (0x5b :: (digits ++ [0])).length ≤ rest.length := by
    simp only [List.length_cons, List.length_append, List.length_nil]
    omega
  have hfirst := @write_eq ⟨msg ++ rest, msg.length⟩ msg rest _ rfl hfits
  have hrest : digits.length + 2 + (rest.drop (0x5b :: (digits ++ [0])).length).length =
      rest.length := by
    simp only [List.length_drop, List.length_cons, List.length_append, List.length_nil]
    omega
  generalize rest.drop (0x5b :: (digits ++ [0])).length = behind at hfirst hrest
  have hbuf : msg ++ (0x5b :: (digits ++ [0]) ++ behind) =
      (msg ++ 0x5b :: digits) ++ (0 :: behind) := by simp
  have hlength : (msg ++ 0x5b :: digits).length = msg.length + 1 + digits.length := by
    rw [List.length_append, List.length_cons]
    omega
  have hsecond := @write_eq ⟨msg ++ (0x5b :: (digits ++ [0]) ++ behind), msg.length⟩ _ _ [0x5d, 0]
    hbuf (by
      simp only [List.length_cons, List.length_nil]
      omega)
  have hmeasure := @measure_eq msg
    ⟨msg ++ 0x5b :: digits ++ ([0x5d, 0] ++ (0 :: behind).drop [0x5d, (0 : UInt8)].length),
      msg.length⟩ (0x5b :: (digits ++ [0x5d])) (behind.drop 1) rfl (by simp) (by
      simpa [or_imp, forall_and] using hdigits)
  rw [hlength] at hsecond
  refine ⟨_, ?_, Split.held (⟨rfl, 0 :: behind.drop 1, by simp, ?_⟩ : Split cfg _
    ⟨msg ++ 0x5b :: digits ++ ([0x5d, 0] ++ (0 :: behind).drop [0x5d, (0 : UInt8)].length), _⟩)⟩
  · rw [hfirst]
    change (Line.write _ _ _).bind Line.measure = _
    rw [hsecond]
    exact hmeasure
  · simp only [List.length_append, List.length_cons, List.length_nil, List.length_drop]
    omega

/-- Behind the last place of the buffer the bracket or its zero has no room. -/
theorem Held.addTick_outside (hheld : Held cfg msg line) (htick : cfg.outputTime = .tick)
    (hroom : cfg.lineBufSize < msg.length + (ulogUltoa ctx.tick).length + 3) :
    line.addTime cfg ctx = none := by
  obtain ⟨w, hsplit, hlength, -⟩ := hheld.split
  rw [Line.addTime, htick, hsplit.logLen]
  dsimp only
  generalize ulogUltoa ctx.tick = digits at hroom
  cases hfirst : line.write w.length (0x5b :: (digits ++ [0])) with
  | none => rfl
  | some written =>
    have hbuf : written.buf.length = cfg.lineBufSize := by
      rw [Line.write] at hfirst
      split_ifs at hfirst with hfits
      rw [← Option.some.inj hfirst, ← hsplit.length_buf]
      simp only [List.length_append, List.length_take, List.length_drop]
      omega
    have hsecond : written.write (w.length + 1 + digits.length) [0x5d, 0] = none := by
      refine write_outside ?_
      rw [hbuf]
      simp only [List.length_cons, List.length_nil]
      omega
    change (written.write _ _).bind _ = none
    rw [hsecond]
    rfl

/-- The calendar may be cut in front of the zero that `rt_snprintf` writes. -/
theorem Held.addTimestamp (hheld : Held cfg msg line)
    (htime : cfg.outputTime = .timestamp) (hroom : msg.length < cfg.lineBufSize) :
    ∃ next, line.addTime cfg ctx = some next ∧
      Nearly cfg (msg ++ timeText cfg ctx) next := by
  have hnonzero := ctx.timestamp.ne_zero
  obtain ⟨hlogLen, rest, hbuf, hsize⟩ := hheld.split_of_lt hroom
  obtain ⟨buf, logLen⟩ := line
  dsimp only at hlogLen hbuf
  subst hlogLen hbuf
  have htext : timeText cfg ctx = ctx.timestamp.text := by rw [timeText, htime]
  rw [htext, Line.addTime, htime]
  dsimp only
  generalize ctx.timestamp.text = text at hnonzero
  have hcut : ∀ ch ∈ text.take (cfg.lineBufSize - msg.length - 1), ch ≠ 0 :=
    fun ch hch => hnonzero ch (List.mem_of_mem_take hch)
  have hfits : (text.take (cfg.lineBufSize - msg.length - 1) ++ [0]).length ≤ rest.length := by
    rw [List.length_append, List.length_take, List.length_singleton]
    omega
  have hprint := @write_eq ⟨msg ++ rest, msg.length⟩ msg rest _ rfl hfits
  have hrest : min (cfg.lineBufSize - msg.length - 1) text.length + 1 +
      (rest.drop (text.take (cfg.lineBufSize - msg.length - 1) ++ [0]).length).length =
        rest.length := by
    rw [List.length_drop, List.length_append, List.length_take, List.length_singleton]
    omega
  generalize rest.drop (text.take (cfg.lineBufSize - msg.length - 1) ++ [0]).length = behind
    at hprint hrest
  have hmeasure := @measure_eq msg
    ⟨msg ++ (text.take (cfg.lineBufSize - msg.length - 1) ++ [0] ++ behind), msg.length⟩
    (text.take (cfg.lineBufSize - msg.length - 1)) behind rfl (by simp) hcut
  have hsplit : Split cfg (msg ++ text.take (cfg.lineBufSize - msg.length - 1))
      ⟨msg ++ (text.take (cfg.lineBufSize - msg.length - 1) ++ [0] ++ behind),
        (msg ++ text.take (cfg.lineBufSize - msg.length - 1)).length⟩ := by
    refine ⟨rfl, 0 :: behind, by simp, ?_⟩
    rw [List.length_append, List.length_take, List.length_cons]
    omega
  refine ⟨⟨msg ++ (text.take (cfg.lineBufSize - msg.length - 1) ++ [0] ++ behind),
    (msg ++ text.take (cfg.lineBufSize - msg.length - 1)).length⟩, ?_, ?_⟩
  · rw [Line.print]
    dsimp only
    rw [if_pos (Nat.sub_pos_of_lt hroom), hprint]
    exact hmeasure
  · rcases Nat.lt_or_ge (cfg.lineBufSize - msg.length - 1) text.length with hlong | hshort
    · refine Or.inr ⟨?_, ?_⟩
      · rw [List.length_append]
        omega
      · have htake : (msg ++ text).take (cfg.lineBufSize - 1) =
            msg ++ text.take (cfg.lineBufSize - msg.length - 1) := by
          rw [List.take_append, List.take_of_length_le (by omega),
            Nat.sub_right_comm cfg.lineBufSize]
        rwa [htake]
    · rw [List.take_of_length_le hshort] at hsplit ⊢
      exact Or.inl hsplit.held

theorem Held.addTimestamp_outside (hheld : Held cfg msg line)
    (htime : cfg.outputTime = .timestamp) (hroom : cfg.lineBufSize ≤ msg.length) :
    line.addTime cfg ctx = none := by
  obtain ⟨w, hsplit, hlength, -⟩ := hheld.split
  have hfull : line.logLen = cfg.lineBufSize := by
    rw [hsplit.logLen, hlength, Nat.min_eq_right hroom]
  have hdrop : line.buf.drop line.logLen = [] := by
    rw [List.drop_eq_nil_iff, hsplit.length_buf, hfull]
  rw [Line.addTime, htime, Line.print]
  dsimp only
  rw [hfull, Nat.sub_self, if_neg (Nat.lt_irrefl 0)]
  change line.measure = none
  rw [Line.measure, hdrop]
  rfl

theorem Nearly.addGap (condition : Prop) [Decidable condition] (hnearly : Nearly cfg msg line)
    (hheld : ¬ condition → Held cfg msg line) :
    ∃ next, line.addGap cfg condition = some next ∧
      Held cfg (msg ++ if condition then [0x20] else []) next := by
  rw [Line.addGap]
  split_ifs with hgap
  · exact hnearly.copy (List.cons_ne_nil _ _)
  · exact ⟨line, rfl, by rw [List.append_nil]; exact hheld hgap⟩

theorem Nearly.addLevel {info : List UInt8} (hnearly : Nearly cfg msg line)
    (hoff : cfg.outputTime = .off → Held cfg msg line)
    (hinfo : cfg.outputLevel = true → levelOutputInfo level = some info) :
    ∃ next, line.addLevel cfg level = some next ∧
      Nearly cfg (msg ++ levelText cfg level) next ∧
      (cfg.outputTime = .off ∨ cfg.outputLevel = true →
        Held cfg (msg ++ levelText cfg level) next) := by
  rw [Line.addLevel, levelText]
  by_cases hlevel : cfg.outputLevel = true
  · rw [if_pos hlevel, if_pos hlevel]
    obtain ⟨mid, hgap, hmid⟩ := hnearly.addGap (cfg.outputTime ≠ .off)
      fun hnot => hoff (not_not.1 hnot)
    obtain ⟨next, hcopy, hnext⟩ := hmid.copy info
    rw [List.append_assoc] at hnext
    refine ⟨next, ?_, ?_⟩
    · rw [hgap, hinfo hlevel]
      exact hcopy
    · rw [hinfo hlevel]
      exact ⟨Or.inl hnext, fun _ => hnext⟩
  · rw [if_neg hlevel, if_neg hlevel, List.append_nil]
    exact ⟨line, rfl, hnearly, fun hsome => hoff (hsome.resolve_right hlevel)⟩

theorem addLevel_null (hlevel : cfg.outputLevel = true) (hinfo : levelOutputInfo level = none) :
    line.addLevel cfg level = none := by
  rw [Line.addLevel, if_pos hlevel, hinfo]
  exact Option.bind_eq_none_iff.2 fun _ _ => rfl

theorem Nearly.addTag (hnearly : Nearly cfg msg line)
    (hheld : cfg.outputTime = .off ∨ cfg.outputLevel = true → Held cfg msg line) :
    ∃ next, line.addTag cfg tag = some next ∧
      Nearly cfg (msg ++ tagText cfg tag) next ∧
      (cfg.outputTime = .off ∨ cfg.outputLevel = true ∨ cfg.outputTag = true →
        Held cfg (msg ++ tagText cfg tag) next) := by
  rw [Line.addTag, tagText]
  by_cases htag : cfg.outputTag = true
  · rw [if_pos htag, if_pos htag]
    obtain ⟨mid, hgap, hmid⟩ := hnearly.addGap (¬ cfg.outputLevel ∧ cfg.outputTime ≠ .off)
      fun hnot => hheld (by
        rcases not_and_or.1 hnot with hlevel | htime
        · exact Or.inr (not_not.1 hlevel)
        · exact Or.inl (not_not.1 htime))
    obtain ⟨next, hcopy, hnext⟩ := hmid.copy tag
    rw [List.append_assoc] at hnext
    refine ⟨next, ?_, Or.inl hnext, fun _ => hnext⟩
    rw [hgap]
    exact hcopy
  · rw [if_neg htag, if_neg htag, List.append_nil]
    exact ⟨line, rfl, hnearly, fun hsome =>
      hheld (hsome.imp_right fun hsome => hsome.resolve_right htag)⟩

/-- The name of the thread is copied as long as it is. -/
theorem Nearly.addThreadName (hnearly : Nearly cfg msg line)
    (hheld : cfg.outputTime = .off ∨ cfg.outputLevel = true ∨ cfg.outputTag = true →
      Held cfg msg line)
    (hfits : cfg.outputThreadName = true → ctx.interruptNest = 0 →
      Line.nameOf cfg ctx ≠ [] → (msg ++ nameGap cfg).length +
        (Line.nameOf cfg ctx).length ≤ cfg.lineBufSize) :
    ∃ next, line.addThreadName cfg ctx = some next ∧
      Nearly cfg (msg ++ nameText cfg ctx) next := by
  rw [Line.addThreadName, nameText]
  by_cases hname : cfg.outputThreadName = true
  · rw [if_pos hname, if_pos hname]
    obtain ⟨mid, hgap, hmid⟩ := hnearly.addGap
      (cfg.outputTime ≠ .off ∨ cfg.outputLevel ∨ cfg.outputTag) fun hnot =>
        hheld (Or.inl (not_not.1 (not_or.1 hnot).1))
    change Held cfg (msg ++ nameGap cfg) mid at hmid
    rw [hgap, ← List.append_assoc]
    dsimp only [Option.bind_eq_bind, Option.bind_some]
    split_ifs with hnest
    · have hfits := hfits hname hnest
      generalize Line.nameOf cfg ctx = name at hfits
      generalize msg ++ nameGap cfg = before at hfits hmid
      by_cases hempty : name = []
      · subst hempty
        obtain ⟨w, hsplit, -⟩ := hmid.split
        obtain ⟨rest, hbuf, -⟩ := hsplit.buf
        have hwrite := @write_eq mid w rest [] hbuf (Nat.zero_le _)
        rw [← hsplit.logLen] at hwrite
        rw [hwrite, List.append_nil]
        refine ⟨mid, ?_, Or.inl hmid⟩
        simp [← hbuf]
      · have hroom := hfits hempty
        have hpos := List.length_pos_iff.2 hempty
        obtain ⟨hlogLen, rest, hbuf, hsize⟩ := hmid.split_of_lt (by omega)
        have hwrite := @write_eq mid before rest name hbuf (by omega)
        rw [← hlogLen] at hwrite
        rw [hwrite]
        refine ⟨_, rfl, Or.inl (Split.held ⟨?_, rest.drop name.length, by simp, ?_⟩)⟩
        · rw [List.length_append, hlogLen]
        · rw [List.length_append, List.length_drop]
          omega
    · obtain ⟨next, hcopy, hnext⟩ := hmid.copy [0x49, 0x53, 0x52]
      exact ⟨next, hcopy, Or.inl hnext⟩
  · rw [if_neg hname, if_neg hname, List.append_nil]
    exact ⟨line, rfl, hnearly⟩

theorem Nearly.addThreadName_outside (hnearly : Nearly cfg msg line)
    (hheld : cfg.outputTime = .off ∨ cfg.outputLevel = true ∨ cfg.outputTag = true →
      Held cfg msg line)
    (hname : cfg.outputThreadName = true) (hnest : ctx.interruptNest = 0)
    (hempty : Line.nameOf cfg ctx ≠ [])
    (hlong : cfg.lineBufSize < (msg ++ nameGap cfg).length +
      (Line.nameOf cfg ctx).length) :
    line.addThreadName cfg ctx = none := by
  rw [Line.addThreadName, if_pos hname]
  obtain ⟨mid, hgap, hmid⟩ := hnearly.addGap
    (cfg.outputTime ≠ .off ∨ cfg.outputLevel ∨ cfg.outputTag) fun hnot =>
      hheld (Or.inl (not_not.1 (not_or.1 hnot).1))
  change Held cfg (msg ++ nameGap cfg) mid at hmid
  obtain ⟨w, hsplit, hlength, -⟩ := hmid.split
  have hpos := List.length_pos_iff.2 hempty
  have houtside : mid.write mid.logLen (Line.nameOf cfg ctx) = none := by
    refine write_outside ?_
    rw [hsplit.length_buf, hsplit.logLen, hlength]
    omega
  rw [hgap]
  dsimp only [Option.bind_eq_bind, Option.bind_some]
  rw [if_pos hnest, houtside]
  rfl

/-- The time has room. -/
def TimeFits (cfg : LineConfig) (ctx : Context) (msg : List UInt8) : Prop :=
  (cfg.outputTime = .tick →
    msg.length + (ulogUltoa ctx.tick).length + 3 ≤ cfg.lineBufSize) ∧
  (cfg.outputTime = .timestamp → msg.length < cfg.lineBufSize)

theorem Held.addTime (hheld : Held cfg msg line) (hfits : TimeFits cfg ctx msg) :
    ∃ next, line.addTime cfg ctx = some next ∧
      Nearly cfg (msg ++ timeText cfg ctx) next ∧
      (cfg.outputTime = .off → Held cfg (msg ++ timeText cfg ctx) next) := by
  cases htime : cfg.outputTime with
  | off =>
    have hnone : timeText cfg ctx = [] := by rw [timeText, htime]
    rw [hnone, List.append_nil, Line.addTime, htime]
    exact ⟨line, rfl, Or.inl hheld, fun _ => hheld⟩
  | tick =>
    obtain ⟨next, hnext, hheld'⟩ := hheld.addTick htime (hfits.1 htime)
    exact ⟨next, hnext, Or.inl hheld', fun _ => hheld'⟩
  | timestamp =>
    obtain ⟨next, hnext, hnearly⟩ := hheld.addTimestamp htime (hfits.2 htime)
    exact ⟨next, hnext, hnearly, fun hoff => by cases hoff⟩

theorem Held.addTime_outside (hheld : Held cfg msg line)
    (hfits : ¬ TimeFits cfg ctx msg) : line.addTime cfg ctx = none := by
  rcases not_and_or.1 hfits with htick | htimestamp
  · obtain ⟨htime, hlong⟩ := Classical.not_imp.1 htick
    exact hheld.addTick_outside htime (Nat.lt_of_not_le hlong)
  · obtain ⟨htime, hlong⟩ := Classical.not_imp.1 htimestamp
    exact hheld.addTimestamp_outside htime (Nat.le_of_not_lt hlong)

theorem addHead_eq (hheld : Held cfg [] line)
    (htime : TimeFits cfg ctx (startText cfg level))
    (hinfo : cfg.outputLevel = true → (levelOutputInfo level).isSome) :
    ∃ mid, line.addHead cfg ctx level tag =
        (mid.addThreadName cfg ctx).bind (·.copy cfg [0x3a, 0x20]) ∧
      Nearly cfg (beforeName cfg ctx level tag) mid ∧
      (cfg.outputTime = .off ∨ cfg.outputLevel = true ∨ cfg.outputTag = true →
        Held cfg (beforeName cfg ctx level tag) mid) := by
  have hsome : cfg.outputLevel = true →
      levelOutputInfo level = some ((levelOutputInfo level).getD []) := by
    intro hlevel
    obtain ⟨info, hinfo⟩ := Option.isSome_iff_exists.1 (hinfo hlevel)
    rw [hinfo]
    rfl
  obtain ⟨colored, hcolor, hheld⟩ := @Held.addColor cfg level line hheld
  obtain ⟨timed, htimed, hnearly, hoff⟩ := hheld.addTime htime
  obtain ⟨leveled, hlevel, hnearly, hheld⟩ := hnearly.addLevel hoff hsome
  obtain ⟨tagged, htag, hnearly, hheld⟩ := @Nearly.addTag _ tag _ _ hnearly hheld
  refine ⟨tagged, ?_, hnearly, hheld⟩
  rw [Line.addHead, hcolor, Option.bind_eq_bind, Option.bind_some, htimed, Option.bind_some,
    hlevel, Option.bind_some, htag]
  rfl

theorem Fits.timeFits (hfits : Fits cfg ctx level tag) :
    TimeFits cfg ctx (startText cfg level) :=
  ⟨hfits.tick, hfits.timestamp⟩

theorem addHead_held (hheld : Held cfg [] line) (hfits : Fits cfg ctx level tag) :
    ∃ next, line.addHead cfg ctx level tag = some next ∧
      Held cfg (headText cfg ctx level tag) next := by
  obtain ⟨mid, hhead, hnearly, hheld⟩ := @addHead_eq _ _ _ tag _ hheld hfits.timeFits hfits.info
  obtain ⟨named, hname, hnearly⟩ := hnearly.addThreadName hheld hfits.name
  obtain ⟨next, hcopy, hnext⟩ := hnearly.copy (List.cons_ne_nil 0x3a [0x20])
  refine ⟨next, ?_, hnext⟩
  rw [hhead, hname]
  exact hcopy

/-- Without room for the time or for the name of the thread a byte is written outside. -/
theorem addHead_outside (hheld : Held cfg [] line) (hlevel : level ≤ lvlDbg)
    (hfits : ¬ Fits cfg ctx level tag) : line.addHead cfg ctx level tag = none := by
  by_cases htime : TimeFits cfg ctx (startText cfg level)
  · by_cases hinfo : cfg.outputLevel = true → (levelOutputInfo level).isSome
    · obtain ⟨mid, hhead, hnearly, hheld⟩ := @addHead_eq _ _ _ tag _ hheld htime hinfo
      by_cases hname : cfg.outputThreadName = true ∧ ctx.interruptNest = 0 ∧
          Line.nameOf cfg ctx ≠ [] ∧ cfg.lineBufSize <
            (beforeName cfg ctx level tag ++ nameGap cfg).length +
              (Line.nameOf cfg ctx).length
      · obtain ⟨hname, hnest, hempty, hlong⟩ := hname
        rw [hhead, hnearly.addThreadName_outside hheld hname hnest hempty hlong]
        rfl
      · refine absurd ⟨hlevel, hinfo, htime.1, htime.2, fun hsome hnest hempty => ?_⟩ hfits
        exact Nat.le_of_not_lt fun hlong => hname ⟨hsome, hnest, hempty, hlong⟩
    · obtain ⟨hsome, hnone⟩ := Classical.not_imp.1 hinfo
      obtain ⟨colored, hcolor, hheld⟩ := @Held.addColor cfg level line hheld
      obtain ⟨timed, htimed, -⟩ := hheld.addTime htime
      rw [Line.addHead, hcolor, Option.bind_eq_bind, Option.bind_some, htimed, Option.bind_some,
        addLevel_null hsome (Option.not_isSome_iff_eq_none.1 hnone)]
      rfl
  · obtain ⟨colored, hcolor, hheld⟩ := @Held.addColor cfg level line hheld
    rw [Line.addHead, hcolor, Option.bind_eq_bind, Option.bind_some,
      hheld.addTime_outside htime]
    rfl

/-! ## The text and the signs -/

/-- What the format prints, in a buffer of any size. -/
def Prints (cfg : LineConfig) (format : List UInt8) (args : ℕ → Printf.Arg)
    (output : List UInt8) : Prop :=
  ∀ buf room size, ∃ after, Printf.rtVsnprintf cfg.printf buf room size format args =
      some (Printf.int32 output.length, after) ∧
    (0 < size → size ≤ room →
      (List.range (min output.length (size - 1) + 1)).map after = output.take (size - 1) ++ [0])

theorem exists_prints (cfg : LineConfig) (format : List UInt8) (args : ℕ → Printf.Arg) :
    ∃ output, Prints cfg format args output := by
  obtain ⟨output, hrun⟩ := Printf.rtVsnprintf_eq cfg.printf format args
  refine ⟨output, fun buf room size => ⟨_, hrun buf room size, fun hpos hroom => ?_⟩⟩
  rw [Nat.min_eq_right hroom]
  exact Core.Printed.close_inside 0 hpos

/-- `log_len` behind the text, before and after it is cut. -/
def textLen (cfg : LineConfig) (head : List UInt8) (fmtResult : Int) : ℕ :=
  let logLen := min head.length cfg.lineBufSize
  if logLen + fmtResult ≤ cfg.lineBufSize ∧ fmtResult > -1 then logLen + fmtResult.toNat
  else cfg.lineBufSize

def cutLen (cfg : LineConfig) (logLen : ℕ) : ℕ :=
  if logLen + cfg.reserve > cfg.lineBufSize then cfg.lineBufSize - cfg.reserve
  else logLen

theorem reserve_pos (cfg : LineConfig) : 2 ≤ cfg.reserve ∧ cfg.reserve ≤ 6 := by
  rw [LineConfig.reserve]
  split_ifs <;> decide

theorem cutLen_le (cfg : LineConfig) (logLen : ℕ) :
    cutLen cfg logLen + cfg.reserve ≤ cfg.lineBufSize ∧ cutLen cfg logLen ≤ logLen := by
  have hlarge := cfg.large
  have hreserve := reserve_pos cfg
  rw [cutLen]
  split_ifs <;> omega

/-- What is counted is there: a length that does not fit into an `int` is longer than the
buffer. -/
theorem textLen_le (msg output : List UInt8) :
    textLen cfg msg (Printf.int32 output.length) ≤ (msg ++ output).length := by
  have hsmall := cfg.small
  have hvalue : Printf.int32 output.length ≤ output.length ∧
      (Printf.int32 output.length < 0 → 2 ^ 31 ≤ output.length) := by
    rw [Printf.int32]
    omega
  generalize Printf.int32 output.length = fmtResult at hvalue
  rw [textLen, List.length_append]
  split_ifs <;> omega

/-- The text is cut where the message that does not end is cut. -/
theorem Held.addText {format : List UInt8} {args : ℕ → Printf.Arg} {output : List UInt8}
    (hheld : Held cfg msg line) (hprints : Prints cfg format args output) :
    ∃ next, line.addText cfg format args = some next ∧
      next.logLen = cutLen cfg (textLen cfg msg (Printf.int32 output.length)) ∧
      Split cfg ((msg ++ output).take next.logLen) next := by
  have htext := @textLen_le cfg msg output
  obtain ⟨w, ⟨hlogLen, rest, hbuf, hsize⟩, hlength, htake⟩ := hheld.split
  have hcut := cutLen_le cfg (textLen cfg msg (Printf.int32 output.length))
  have hreserve := reserve_pos cfg
  have hroom : cfg.lineBufSize - w.length = rest.length := by omega
  obtain ⟨after, hrun, hafter⟩ := hprints (fun slot => line.buf.getD (line.logLen + slot) 0)
    rest.length rest.length
  have hprint : line.vprint cfg format args = some (Printf.int32 output.length,
      { line with buf := w ++ (List.range rest.length).map after }) := by
    rw [Line.vprint, hlogLen, hroom, ← hlogLen, hrun, Option.bind_eq_bind, Option.bind_some,
      hlogLen, hbuf, List.take_left]
    rfl
  refine ⟨⟨w ++ (List.range rest.length).map after,
    cutLen cfg (textLen cfg msg (Printf.int32 output.length))⟩, ?_, rfl, ?_⟩
  · rw [Line.addText, hprint, Option.bind_eq_bind, Option.bind_some]
    dsimp only
    rw [cutLen, textLen, hlogLen, hlength]
    rfl
  dsimp only
  generalize cutLen cfg (textLen cfg msg (Printf.int32 output.length)) = logLen at hcut ⊢
  have hsame : (w ++ (List.range rest.length).map after).take logLen =
      (msg ++ output).take logLen := by
    by_cases hshort : msg.length < cfg.lineBufSize - 1
    · have hw : w = msg := by
        rwa [List.take_of_length_le (by omega), List.take_of_length_le (by omega)] at htake
      subst hw
      have hk : logLen - w.length ≤ min output.length (rest.length - 1) := by
        rw [List.length_append] at htext
        omega
      have hprefix := congrArg (List.take (logLen - w.length)) (hafter (by omega) le_rfl)
      rw [← List.map_take, List.take_range, Nat.min_eq_left (by omega),
        List.take_append_of_le_length (by rw [List.length_take]; omega), List.take_take,
        Nat.min_eq_left (by omega)] at hprefix
      rw [List.take_append, List.take_append, ← List.map_take, List.take_range,
        Nat.min_eq_left (by omega), hprefix]
    · have hfull := congrArg (List.take logLen) htake
      rw [List.take_take, List.take_take, Nat.min_eq_left (by omega)] at hfull
      rw [List.take_append_of_le_length (by omega), List.take_append_of_le_length (by omega),
        hfull]
  have hinside : ((msg ++ output).take logLen).length = logLen := by
    rw [List.length_take]
    omega
  refine ⟨hinside.symm, (w ++ (List.range rest.length).map after).drop logLen, ?_, ?_⟩
  · rw [← hsame, List.take_append_drop]
  · have hall : (w ++ (List.range rest.length).map after).length = w.length + rest.length := by
      rw [List.length_append, List.length_map, List.length_range]
    rw [hinside, List.length_drop, hall]
    omega

theorem Split.copyIf (condition : Bool) (src : List UInt8) (hsplit : Split cfg w line)
    (hfits : w.length + (if condition then src else []).length ≤ cfg.lineBufSize) :
    ∃ next, line.copyIf cfg condition src = some next ∧
      Split cfg (w ++ if condition then src else []) next := by
  cases condition with
  | false => exact ⟨line, rfl, (List.append_nil w).symm ▸ hsplit⟩
  | true =>
    obtain ⟨next, hnext, hsplit'⟩ := hsplit.copy src
    rw [List.take_of_length_le (by simp only [if_true] at hfits; omega)] at hsplit'
    exact ⟨next, hnext, hsplit'⟩

/-- What the signs at the end of a line are. -/
def signs (cfg : LineConfig) (level : ℕ) (newline : Bool) : List UInt8 :=
  (if newline then newlineSign else []) ++
    if (cfg.levelColor level).isSome then csiEnd else []

theorem length_signs (cfg : LineConfig) (level : ℕ) (newline : Bool) :
    (signs cfg level newline).length ≤ cfg.reserve := by
  rw [signs, LineConfig.reserve, LineConfig.levelColor]
  cases newline <;> cases cfg.usingColor <;> cases cfg.colorOutputInfo level <;>
    simp [newlineSign, csiEnd]

theorem Split.addSigns {newline : Bool} (hsplit : Split cfg w line)
    (hroom : w.length + cfg.reserve ≤ cfg.lineBufSize) :
    ∃ next, line.addSigns cfg level newline = some next ∧
      Split cfg (w ++ signs cfg level newline) next := by
  have hsigns := length_signs cfg level newline
  rw [signs, List.length_append] at hsigns
  obtain ⟨mid, hnewline, hmid⟩ := hsplit.copyIf newline newlineSign (by omega)
  obtain ⟨next, hend, hnext⟩ := hmid.copyIf (cfg.levelColor level).isSome csiEnd (by
    rw [List.length_append]
    omega)
  rw [List.append_assoc] at hnext
  refine ⟨next, ?_, hnext⟩
  rw [Line.addSigns, hnewline]
  exact hend

/-! ## Whole lines -/

variable {logBuf format : List UInt8} {args : ℕ → Printf.Arg} {output : List UInt8}
  {newline : Bool}

/-- The length of a line, without and with the signs. -/
def lineLen (cfg : LineConfig) (ctx : Context) (level : ℕ) (tag : List UInt8) (newline : Bool)
    (fmtResult : Int) : ℕ :=
  cutLen cfg (textLen cfg (headText cfg ctx level tag) fmtResult) +
    (signs cfg level newline).length

theorem held_start (hbuf : logBuf.length = cfg.lineBufSize) : Held cfg [] ⟨logBuf, 0⟩ :=
  Split.held ⟨rfl, logBuf, rfl, (Nat.zero_add _).trans hbuf⟩

theorem formater_holds (hbuf : logBuf.length = cfg.lineBufSize)
    (hprints : Prints cfg format args output) (hfits : Fits cfg ctx level tag) :
    ∃ line, ulogFormater cfg ctx logBuf level tag newline format args = some line ∧
      LineHolds cfg level newline (headText cfg ctx level tag ++ output) line ∧
      line.logLen = lineLen cfg ctx level tag newline (Printf.int32 output.length) := by
  obtain ⟨headed, hhead, hheld⟩ := addHead_held (held_start hbuf) hfits
  obtain ⟨texted, htext, hlogLen, hsplit⟩ := hheld.addText hprints
  have hcut := cutLen_le cfg
    (textLen cfg (headText cfg ctx level tag) (Printf.int32 output.length))
  have hinside := hsplit.logLen
  obtain ⟨line, hsigns, hlast⟩ := @Split.addSigns cfg level _ _ newline hsplit (by omega)
  have hle := hlast.length_le
  refine ⟨line, ?_, ⟨hlast.length_buf, hlast.logLen ▸ hle,
    (headText cfg ctx level tag ++ output).take texted.logLen, List.take_prefix _ _, ?_⟩, ?_⟩
  · rw [ulogFormater, if_neg (Nat.not_lt.2 hfits.level_le), hhead, Option.bind_eq_bind,
      Option.bind_some, htext, Option.bind_some, hsigns]
  · obtain ⟨rest, hbuf, -⟩ := hlast.buf
    rw [hlast.logLen, hbuf, List.take_left]
    rfl
  · rw [hlast.logLen, List.length_append, ← hinside, hlogLen]
    rfl

theorem formater_outside (hbuf : logBuf.length = cfg.lineBufSize)
    (hfits : ¬ Fits cfg ctx level tag) :
    ulogFormater cfg ctx logBuf level tag newline format args = none := by
  rw [ulogFormater]
  split_ifs with hlevel
  · rfl
  · rw [addHead_outside (held_start hbuf) (Nat.le_of_not_lt hlevel) hfits]
    rfl

/-- A keyword needs a zero behind the line: the line is not the whole buffer. -/
def KeywordFits (cfg : LineConfig) (filter : Filter) (ctx : Context) (level : ℕ)
    (tag : List UInt8) (newline : Bool) (fmtResult : Int) : Prop :=
  cfg.usingFilter = true → filter.keyword ≠ [] → newline = true →
    (cfg.usingColor = true → (cfg.levelColor level).isSome) →
      textLen cfg (headText cfg ctx level tag) fmtResult + cfg.reserve <
        cfg.lineBufSize

theorem length_signs_lt_iff :
    (signs cfg level newline).length < cfg.reserve ↔
      ¬ (newline = true ∧ (cfg.usingColor = true → (cfg.levelColor level).isSome)) := by
  rw [signs, LineConfig.reserve, LineConfig.levelColor]
  cases newline <;> cases cfg.usingColor <;> cases cfg.colorOutputInfo level <;>
    simp [newlineSign, csiEnd]

theorem lineLen_lt (fmtResult : Int) :
    lineLen cfg ctx level tag newline fmtResult < cfg.lineBufSize ↔
      (newline = true → (cfg.usingColor = true → (cfg.levelColor level).isSome) →
        textLen cfg (headText cfg ctx level tag) fmtResult + cfg.reserve <
          cfg.lineBufSize) := by
  have hcut := cutLen_le cfg (textLen cfg (headText cfg ctx level tag) fmtResult)
  have hsigns := length_signs cfg level newline
  have hiff := @length_signs_lt_iff cfg level newline
  rw [← and_imp, lineLen]
  generalize (signs cfg level newline).length = count at hsigns hiff
  by_cases hfull : newline = true ∧
      (cfg.usingColor = true → (cfg.levelColor level).isSome)
  · have hcount : count = cfg.reserve :=
      Nat.le_antisymm hsigns (Nat.le_of_not_lt fun hlt => hiff.1 hlt hfull)
    rw [hcount, forall_prop_of_true hfull]
    generalize textLen cfg (headText cfg ctx level tag) fmtResult = logLen at hcut
    rw [cutLen] at hcut ⊢
    split_ifs at hcut ⊢ <;> omega
  · have hcount := hiff.2 hfull
    exact iff_of_true (by omega) fun hsome => absurd hsome hfull

/-- `ulog_formater` returns a line that holds what it should. -/
def FormaterHolds (cfg : LineConfig) (ctx : Context)
    (logBuf : List.Vector UInt8 cfg.lineBufSize) (level : ℕ) (tag : List UInt8)
    (newline : Bool) (format : List UInt8) (args : ℕ → Printf.Arg) (output : List UInt8) : Prop :=
  ∃ line, ulogFormater cfg ctx logBuf.toList level tag newline format args = some line ∧
    LineHolds cfg level newline (headText cfg ctx level tag ++ output) line

/-- `ulog_voutput` returns, and a line that it passes on holds what it should. -/
def VoutputHolds (cfg : LineConfig) (ulog : RtUlog) (filter : Filter) (ctx : Context)
    (logBuf : List.Vector UInt8 cfg.lineBufSize) (level : ℕ) (tag : List UInt8)
    (newline : Bool) (format : List UInt8) (args : ℕ → Printf.Arg) (output : List UInt8) : Prop :=
  ∃ passed, ulogVoutput cfg ulog filter ctx logBuf.toList level tag newline format args =
      some passed ∧
    ∀ line ∈ passed, LineHolds cfg level newline (headText cfg ctx level tag ++ output) line

theorem keywordFilter_holds {filter : Filter} {message : List UInt8}
    (hholds : LineHolds cfg level newline message line)
    (hroom : cfg.usingFilter = true → filter.keyword ≠ [] →
      line.logLen < cfg.lineBufSize) :
    ∃ passed, keywordFilter cfg filter line = some passed ∧
      ∀ line ∈ passed, LineHolds cfg level newline message line := by
  rw [keywordFilter]
  split_ifs with hkeyword
  · have hlt := hroom hkeyword.1 hkeyword.2
    have hlength : (line.buf.take line.logLen).length = line.logLen := by
      rw [List.length_take, hholds.size, Nat.min_eq_left hlt.le]
    have hfits : [(0 : UInt8)].length ≤ (line.buf.drop line.logLen).length := by
      rw [List.length_drop, hholds.size, List.length_singleton]
      omega
    have hwrite := write_eq (List.take_append_drop line.logLen line.buf).symm hfits
    rw [hlength] at hwrite
    have hclosed : LineHolds cfg level newline message { line with
        buf := line.buf.take line.logLen ++ ([0] ++
          (line.buf.drop line.logLen).drop [(0 : UInt8)].length) } := by
      obtain ⟨hsize, hlogLen, front, hprefix, htext⟩ := hholds
      refine ⟨?_, hlogLen, front, hprefix, ?_⟩
      · simp only [List.length_append, List.length_take, List.length_drop, List.length_singleton]
        omega
      · rw [← htext]
        exact List.take_left' hlength
    rw [hwrite]
    refine ⟨_, rfl, fun last hlast => ?_⟩
    split_ifs at hlast
    · exact Option.some.inj hlast ▸ hclosed
    · cases hlast
  · exact ⟨_, rfl, fun last hlast => Option.some.inj hlast ▸ hholds⟩

theorem keywordFilter_outside {filter : Filter} (hsize : line.buf.length = cfg.lineBufSize)
    (hfilter : cfg.usingFilter = true ∧ filter.keyword ≠ [])
    (hfull : cfg.lineBufSize ≤ line.logLen) : keywordFilter cfg filter line = none := by
  have hoverrun : line.write line.logLen [0] = none := by
    refine write_outside ?_
    rw [hsize, List.length_singleton]
    omega
  rw [keywordFilter, if_pos hfilter, hoverrun]
  rfl

/-- `ulog_voutput` behind the filters of the level and of the tag. -/
theorem voutput_formats {filter : Filter} {logBuf : List.Vector UInt8 cfg.lineBufSize}
    (hprints : Prints cfg format args output) :
    (∃ passed, (if ctx.interruptNest ≠ 0 ∧ !cfg.usingIsrLog then none
        else do
          let line ← ulogFormater cfg ctx logBuf.toList level tag newline format args
          keywordFilter cfg filter line) = some passed ∧
        ∀ line ∈ passed,
          LineHolds cfg level newline (headText cfg ctx level tag ++ output) line) ↔
      (ctx.interruptNest ≠ 0 → cfg.usingIsrLog = true) ∧ Fits cfg ctx level tag ∧
        KeywordFits cfg filter ctx level tag newline (Printf.int32 output.length) := by
  by_cases hnull : ctx.interruptNest ≠ 0 ∧ !cfg.usingIsrLog
  · rw [if_pos hnull]
    refine iff_of_false (fun ⟨_, hnone, _⟩ => by cases hnone) fun ⟨hisr, _⟩ => ?_
    simp [hisr hnull.1] at hnull
  · have hisr : ctx.interruptNest ≠ 0 → cfg.usingIsrLog = true := by simpa using hnull
    rw [if_neg hnull, and_iff_right hisr]
    by_cases hfits : Fits cfg ctx level tag
    · obtain ⟨line, hline, hholds, hlogLen⟩ :=
        @formater_holds cfg ctx level tag logBuf.toList format args output newline
          logBuf.toList_length hprints hfits
      rw [hline, and_iff_right hfits, Option.bind_eq_bind, Option.bind_some]
      have hkeyword : KeywordFits cfg filter ctx level tag newline
          (Printf.int32 output.length) ↔ (cfg.usingFilter = true → filter.keyword ≠ [] →
            line.logLen < cfg.lineBufSize) := by
        rw [hlogLen, lineLen_lt]
        rfl
      rw [hkeyword]
      constructor
      · rintro ⟨passed, hpassed, -⟩ husing hsome
        by_contra hfull
        rw [keywordFilter_outside hholds.size ⟨husing, hsome⟩ (Nat.le_of_not_lt hfull)] at hpassed
        cases hpassed
      · exact keywordFilter_holds hholds
    · rw [formater_outside logBuf.toList_length hfits]
      exact iff_of_false (fun ⟨_, hnone, _⟩ => by cases hnone) fun hboth => hfits hboth.1

/-- On a machine of 32 bits, in the default colours and without the time. -/
def defaultLineConfig : LineConfig where
  toConfig := defaultConfig
  printf := ⟨false, true, false⟩
  large := by decide
  small := by decide
  outputTime := .off
  outputLevel := true
  outputTag := true
  outputThreadName := true
  usingFilter := false
  usingIsrLog := false
  nameMax := 8
  filterTagMaxLen := 23

/-- A thread that is called `main`. -/
def mainThread : Context where
  interruptNest := 0
  tick := 0
  timestamp := ⟨[], fun _ hnone => absurd hnone List.not_mem_nil⟩
  threadName := [0x6d, 0x61, 0x69, 0x6e, 0, 0, 0, 0]

end RtThread.Ulog
