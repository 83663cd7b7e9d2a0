import Mathlib.Algebra.Order.Ring.Nat
import Mathlib.Data.List.Infix
import Mathlib.Data.List.TakeWhile

set_option linter.all false

/-!
# The AT server

`server_parser` of `at_server.c` collects the received bytes until they hold the end mark, takes
the name in front of them, runs the command and clears the buffer.  A byte stored outside the
buffer, a scan of a buffer without a zero and a name longer than its array have no result.
-/

namespace RtThread.AtServer

def escKey : UInt8 := 0x1b
def backspaceKey : UInt8 := 0x08
def delectKey : UInt8 := 0x7f
def atCmdQuestionMark : UInt8 := 0x3f
def atCmdEqualMark : UInt8 := 0x3d
def atCmdCr : UInt8 := 0x0d
def atCmdCommaMark : UInt8 := 0x2c
def atCmdLSqBracket : UInt8 := 0x5b
def atCmdRSqBracket : UInt8 := 0x5d
def atCmdLAngleBracket : UInt8 := 0x3c
def atCmdRAngleBracket : UInt8 := 0x3e

/-- From `AT_CMD_CHAR_0` to `AT_CMD_CHAR_9`. -/
def IsDigit (ch : UInt8) : Prop :=
  0x30 ≤ ch ∧ ch ≤ 0x39

instance (ch : UInt8) : Decidable (IsDigit ch) :=
  inferInstanceAs (Decidable (_ ∧ _))

/-- `struct at_cmd`; of its four functions, whether they are set. -/
structure AtCmd where
  name : List UInt8
  argsExpr : List UInt8
  test : Bool
  query : Bool
  setup : Bool
  exec : Bool

inductive Handler
  | test | query | setup | exec

structure Config where
  /-- `AT_SERVER_RECV_BUFF_LEN`. -/
  recvBuffLen : ℕ
  /-- `AT_CMD_NAME_LEN`. -/
  cmdNameLen : ℕ
  endMark : List UInt8
  cmdTable : List AtCmd

/-- `struct at_server`. -/
structure Server where
  echoMode : Bool
  recvBuffer : List UInt8
  curRecvLen : ℕ

/-- A received byte, and what the function of a command leaves in `echo_mode` if the byte makes
one run. -/
structure Input where
  ch : UInt8
  echo : Bool

/-- The text in front of the first zero. -/
def cString (buffer : List UInt8) : Option (List UInt8) :=
  if 0 ∈ buffer then some (buffer.takeWhile (· ≠ 0)) else none

def strstr (buffer mark : List UInt8) : Option Bool := do
  let text ← cString buffer
  return decide (mark <:+: text)

/-- The characters that end the name of a command. -/
def EndsName (ch : UInt8) : Prop :=
  ch = atCmdQuestionMark ∨ ch = atCmdEqualMark ∨ ch = atCmdCr ∨ IsDigit ch

instance (ch : UInt8) : Decidable (EndsName ch) :=
  inferInstanceAs (Decidable (_ ∨ _))

/-- The name, or the inner `none` for `-RT_ERROR`. -/
def atCmdGetName (cmdNameLen : ℕ) (cmdBuffer : List UInt8) : Option (Option (List UInt8)) := do
  let text ← cString cmdBuffer
  match (cmdBuffer.take (text.length + 1)).findIdx? (fun ch => EndsName ch) with
  | none => return none
  | some i => if i + 1 ≤ cmdNameLen then return some (cmdBuffer.take i) else none

def toLower (ch : UInt8) : UInt8 :=
  if 0x41 ≤ ch ∧ ch ≤ 0x5a then ch + 0x20 else ch

def atFindCmd (cmdTable : List AtCmd) (cmd : List UInt8) : Option AtCmd :=
  cmdTable.find? fun entry => cmd.map toLower = entry.name.map toLower

def atCheckArgs (args argsFormat : List UInt8) : Bool :=
  let leftSqBracketNum := argsFormat.count atCmdLSqBracket
  let rightSqBracketNum := argsFormat.count atCmdRSqBracket
  let leftAngleBracketNum := argsFormat.count atCmdLAngleBracket
  let rightAngleBracketNum := argsFormat.count atCmdRAngleBracket
  let commaMarkNum := args.count atCmdCommaMark
  if leftSqBracketNum ≠ rightSqBracketNum ∨ leftAngleBracketNum ≠ rightAngleBracketNum ∨
      leftSqBracketNum > leftAngleBracketNum then false
  else !(commaMarkNum + 1 < leftAngleBracketNum - leftSqBracketNum ||
    commaMarkNum + 1 > leftAngleBracketNum)

/-- The function of the command that runs, if any. -/
def atCmdProcess (cmd : AtCmd) (cmdArgs : List UInt8) : Option Handler :=
  if [atCmdEqualMark, atCmdQuestionMark, atCmdCr] <+: cmdArgs then
    if cmd.test then some .test else none
  else if [atCmdQuestionMark, atCmdCr] <+: cmdArgs then
    if cmd.query then some .query else none
  else if [atCmdEqualMark] <+: cmdArgs ∨
      ((∃ ch ∈ cmdArgs.head?, IsDigit ch) ∧ cmdArgs[1]? = some atCmdCr) then
    if cmd.setup ∧ atCheckArgs cmdArgs cmd.argsExpr then some .setup else none
  else if [atCmdCr] <+: cmdArgs then
    if cmd.exec then some .exec else none
  else none

/-- The command whose name has been found, up to `__retry`. -/
def command (cfg : Config) (cmdName : Option (List UInt8)) (text : List UInt8) :
    Option Handler := do
  let curCmdName ← cmdName
  let curCmd ← atFindCmd cfg.cmdTable curCmdName
  atCmdProcess curCmd (text.drop curCmdName.length)

/-- The byte is a backspace that is echoed. -/
def Erases (echoMode : Bool) (ch : UInt8) : Prop :=
  echoMode = true ∧ (ch = backspaceKey ∨ ch = delectKey)

instance (echoMode : Bool) (ch : UInt8) : Decidable (Erases echoMode ch) :=
  inferInstanceAs (Decidable (_ ∧ _))

namespace Server

def erase (server : Server) : Server :=
  if server.curRecvLen = 0 then server
  else { server with
    recvBuffer := server.recvBuffer.set (server.curRecvLen - 1) 0
    curRecvLen := server.curRecvLen - 1 }

def store (server : Server) (ch : UInt8) : Option Server :=
  if server.curRecvLen < server.recvBuffer.length then
    some { server with
      recvBuffer := server.recvBuffer.set server.curRecvLen ch
      curRecvLen := server.curRecvLen + 1 }
  else none

end Server

/-- `server_parser` with a byte other than `ESC_KEY`. -/
def receive (cfg : Config) (input : Input) (server : Server) : Option Server :=
  if Erases server.echoMode input.ch then some server.erase
  else do
    let server ← server.store input.ch
    let found ← strstr server.recvBuffer cfg.endMark
    if found then do
      let cmdName ← atCmdGetName cfg.cmdNameLen server.recvBuffer
      let text ← cString server.recvBuffer
      let echoMode :=
        if (command cfg cmdName text).isSome then input.echo else server.echoMode
      return ⟨echoMode, List.replicate cfg.recvBuffLen 0, 0⟩
    else return server

def serverParser (cfg : Config) : List Input → Server → Option Server
  | [], server => some server
  | input :: inputs, server =>
    if input.ch = escKey then some server
    else do
      let server ← receive cfg input server
      serverParser cfg inputs server

/-- After every part of the input all accesses were inside, and so is `cur_recv_len`. -/
def Safe (cfg : Config) (inputs : List Input) (server : Server) : Prop :=
  ∀ received, received <+: inputs →
    ∃ last, serverParser cfg received server = some last ∧
      last.curRecvLen ≤ cfg.recvBuffLen

/-! ## The pending line -/

/-- A server that holds the bytes of a line. -/
def held (cfg : Config) (line : List UInt8) (echoMode : Bool) : Server :=
  ⟨echoMode, line ++ List.replicate (cfg.recvBuffLen - line.length) 0, line.length⟩

/-- The text of a line that `strstr` sees. -/
def textOf (line : List UInt8) : List UInt8 :=
  line.takeWhile (· ≠ 0)

/-- The name in front of the first mark or digit. -/
def nameOf (text : List UInt8) : Option (List UInt8) :=
  (text.findIdx? fun ch => EndsName ch).map text.take

/-- What a byte makes of the line and the mode. -/
def lineStep (cfg : Config) (input : Input) (line : List UInt8) (echoMode : Bool) :
    List UInt8 × Bool :=
  if Erases echoMode input.ch then (line.dropLast, echoMode)
  else if cfg.endMark <:+: textOf (line ++ [input.ch]) then
    let text := textOf (line ++ [input.ch])
    ([], if (command cfg (nameOf text) text).isSome then input.echo else echoMode)
  else (line ++ [input.ch], echoMode)

/-- There is room for the byte and a zero, and a name that it completes is short enough. -/
def Admits (cfg : Config) (input : Input) (line : List UInt8) (echoMode : Bool) : Prop :=
  Erases echoMode input.ch ∨
    line.length < cfg.recvBuffLen ∧
      (line.length + 1 < cfg.recvBuffLen ∨ 0 ∈ line ++ [input.ch]) ∧
      (cfg.endMark <:+: textOf (line ++ [input.ch]) →
        ∀ i, (textOf (line ++ [input.ch])).findIdx? (fun ch => EndsName ch) = some i →
          i < cfg.cmdNameLen)

def AdmitsRun (cfg : Config) : List Input → List UInt8 → Bool → Prop
  | [], _, _ => True
  | input :: inputs, line, echoMode =>
    input.ch = escKey ∨ Admits cfg input line echoMode ∧
      AdmitsRun cfg inputs (lineStep cfg input line echoMode).1
        (lineStep cfg input line echoMode).2

/-! ## The buffer and the line -/

theorem exists_split_zero {buffer : List UInt8} (hzero : 0 ∈ buffer) :
    ∃ rest, buffer = textOf buffer ++ 0 :: rest := by
  induction buffer with
  | nil => exact absurd hzero List.not_mem_nil
  | cons ch buffer ih =>
    by_cases hch : ch = 0
    · exact ⟨buffer, by simp [textOf, hch]⟩
    · obtain ⟨rest, hrest⟩ := ih ((List.mem_cons.1 hzero).resolve_left (Ne.symm hch))
      refine ⟨rest, ?_⟩
      have htext : textOf (ch :: buffer) = ch :: textOf buffer :=
        List.takeWhile_cons_of_pos (decide_eq_true hch)
      rw [htext, List.cons_append, ← hrest]

theorem textOf_append_zeros (line : List UInt8) (count : ℕ) :
    textOf (line ++ List.replicate count 0) = textOf line := by
  induction line with
  | nil => cases count <;> simp [textOf, List.replicate_succ]
  | cons ch line ih =>
    unfold textOf at ih ⊢
    rw [List.cons_append, List.takeWhile_cons, List.takeWhile_cons, ih]

variable {cfg : Config} {line : List UInt8} {input : Input} {echoMode : Bool}

theorem zero_mem_held (hline : line.length ≤ cfg.recvBuffLen) :
    0 ∈ (held cfg line echoMode).recvBuffer ↔
      line.length < cfg.recvBuffLen ∨ 0 ∈ line := by
  change 0 ∈ line ++ List.replicate (cfg.recvBuffLen - line.length) 0 ↔ _
  rw [List.mem_append, List.mem_replicate, or_comm]
  refine or_congr_left ⟨fun hzeros => by omega, fun hlt => ⟨by omega, rfl⟩⟩

theorem cString_held (hzero : 0 ∈ (held cfg line echoMode).recvBuffer) :
    cString (held cfg line echoMode).recvBuffer = some (textOf line) := by
  rw [cString, if_pos hzero]
  exact congrArg some (textOf_append_zeros line _)

/-- The search for the end of a name stays in the text: a zero does not end one. -/
theorem atCmdGetName_eq {cmdNameLen : ℕ} {buffer : List UInt8} (hzero : 0 ∈ buffer) :
    atCmdGetName cmdNameLen buffer =
      if ∀ i, (textOf buffer).findIdx? (fun ch => EndsName ch) = some i → i < cmdNameLen then
        some (nameOf (textOf buffer)) else none := by
  obtain ⟨rest, hrest⟩ := exists_split_zero hzero
  have hcString : cString buffer = some (textOf buffer) := if_pos hzero
  generalize textOf buffer = text at hrest hcString ⊢
  have htake : buffer.take (text.length + 1) = text ++ [0] := by
    rw [hrest, List.take_length_add_append]
    rfl
  have hsearch : (text ++ [0]).findIdx? (fun ch => EndsName ch) =
      text.findIdx? (fun ch => EndsName ch) := by
    rw [List.findIdx?_append]
    simp [EndsName, atCmdQuestionMark, atCmdEqualMark, atCmdCr, IsDigit]
  rw [atCmdGetName, hcString]
  change (match (buffer.take (text.length + 1)).findIdx? _ with | none => _ | some i => _) = _
  rw [htake, hsearch, nameOf]
  cases hfind : text.findIdx? (fun ch => EndsName ch) with
  | none => simp
  | some i =>
    have hlt : i < text.length := (List.findIdx?_eq_some_iff_findIdx_eq.1 hfind).1
    have hname : buffer.take i = text.take i := by
      rw [hrest, List.take_append_of_le_length hlt.le]
    simp [hname, Nat.succ_le_iff]

theorem erase_held (hline : line.length ≤ cfg.recvBuffLen) :
    (held cfg line echoMode).erase = held cfg line.dropLast echoMode := by
  rcases List.eq_nil_or_concat line with rfl | ⟨front, last, rfl⟩
  · rfl
  · rw [List.concat_eq_append, List.length_append, List.length_singleton] at hline
    have hroom : cfg.recvBuffLen - front.length =
        cfg.recvBuffLen - (front.length + 1) + 1 := by omega
    simp [held, Server.erase, hroom, List.replicate_succ]

theorem store_held (hroom : line.length < cfg.recvBuffLen) (ch : UInt8) :
    (held cfg line echoMode).store ch = some (held cfg (line ++ [ch]) echoMode) := by
  have hsize : line.length < (held cfg line echoMode).recvBuffer.length := by
    simp [held]
    omega
  have hcount : cfg.recvBuffLen - line.length =
      cfg.recvBuffLen - (line.length + 1) + 1 := by omega
  refine (if_pos hsize).trans ?_
  simp [held, hcount, List.replicate_succ]

theorem store_full (hline : line.length = cfg.recvBuffLen) (ch : UInt8) :
    (held cfg line echoMode).store ch = none := by
  refine if_neg fun hsize => ?_
  simp [held, hline] at hsize

/-! ## One byte -/

theorem length_lineStep (hline : line.length ≤ cfg.recvBuffLen)
    (hadmits : Admits cfg input line echoMode) :
    (lineStep cfg input line echoMode).1.length ≤ cfg.recvBuffLen := by
  rw [lineStep]
  split_ifs with herase hfound
  · exact (List.length_dropLast ▸ Nat.sub_le _ _).trans hline
  · exact Nat.zero_le _
  · rw [List.length_append]
    exact (hadmits.resolve_left herase).1

theorem strstr_held (hzero : 0 ∈ (held cfg line echoMode).recvBuffer) (mark : List UInt8) :
    strstr (held cfg line echoMode).recvBuffer mark = some (decide (mark <:+: textOf line)) := by
  rw [strstr, cString_held hzero]
  rfl

/-- The text ends in front of a zero, and the bytes behind it do not count. -/
theorem textOf_held : textOf (held cfg line echoMode).recvBuffer = textOf line :=
  textOf_append_zeros line _

theorem receive_store (herase : ¬ Erases echoMode input.ch)
    (hroom : line.length < cfg.recvBuffLen) :
    receive cfg input (held cfg line echoMode) =
      (strstr (held cfg (line ++ [input.ch]) echoMode).recvBuffer cfg.endMark).bind
        fun found => if found then
          (atCmdGetName cfg.cmdNameLen
            (held cfg (line ++ [input.ch]) echoMode).recvBuffer).bind fun cmdName =>
          (cString (held cfg (line ++ [input.ch]) echoMode).recvBuffer).bind fun text =>
            some (held cfg []
              (if (command cfg cmdName text).isSome then input.echo else echoMode))
        else some (held cfg (line ++ [input.ch]) echoMode) := by
  refine (if_neg herase).trans ?_
  rw [store_held hroom]
  rfl

/-- A byte that is admitted leaves the server with the next line. -/
theorem receive_admits (hline : line.length ≤ cfg.recvBuffLen)
    (hadmits : Admits cfg input line echoMode) :
    receive cfg input (held cfg line echoMode) =
      some (held cfg (lineStep cfg input line echoMode).1
        (lineStep cfg input line echoMode).2) := by
  rw [lineStep]
  by_cases herase : Erases echoMode input.ch
  · rw [if_pos herase]
    refine (if_pos herase).trans ?_
    rw [erase_held hline]
  · obtain ⟨hroom, hend, hname⟩ := hadmits.resolve_left herase
    have hline' : (line ++ [input.ch]).length ≤ cfg.recvBuffLen := by
      rw [List.length_append]
      exact hroom
    have hzero := (@zero_mem_held cfg _ echoMode hline').2 (by
      rw [List.length_append]
      exact hend)
    rw [if_neg herase, receive_store herase hroom, strstr_held hzero, Option.bind_some]
    by_cases hfound : cfg.endMark <:+: textOf (line ++ [input.ch])
    · rw [if_pos hfound, if_pos (decide_eq_true hfound), atCmdGetName_eq hzero, textOf_held,
        if_pos (hname hfound), Option.bind_some, cString_held hzero, Option.bind_some]
    · rw [if_neg hfound, if_neg (by simpa using hfound)]

theorem receive_not_admits (hline : line.length ≤ cfg.recvBuffLen)
    (hadmits : ¬ Admits cfg input line echoMode) :
    receive cfg input (held cfg line echoMode) = none := by
  have herase : ¬ Erases echoMode input.ch := fun herase => hadmits (Or.inl herase)
  by_cases hroom : line.length < cfg.recvBuffLen
  · have hline' : (line ++ [input.ch]).length ≤ cfg.recvBuffLen := by
      rw [List.length_append]
      exact hroom
    rw [receive_store herase hroom]
    by_cases hzero : 0 ∈ (held cfg (line ++ [input.ch]) echoMode).recvBuffer
    · rw [strstr_held hzero, Option.bind_some]
      have hend := (zero_mem_held hline').1 hzero
      rw [List.length_append] at hend
      by_cases hfound : cfg.endMark <:+: textOf (line ++ [input.ch])
      · rw [if_pos (decide_eq_true hfound), atCmdGetName_eq hzero, textOf_held, if_neg]
        · rfl
        · exact fun hname => hadmits (Or.inr ⟨hroom, hend, fun _ => hname⟩)
      · exact absurd (Or.inr ⟨hroom, hend, fun hmark => absurd hmark hfound⟩) hadmits
    · rw [strstr, cString, if_neg hzero]
      rfl
  · refine (if_neg herase).trans ?_
    rw [store_full (Nat.le_antisymm hline (Nat.not_lt.1 hroom))]
    rfl

/-! ## Whole inputs -/

theorem safe_cons {inputs : List Input} {server : Server} (hesc : input.ch ≠ escKey)
    (hserver : server.curRecvLen ≤ cfg.recvBuffLen) :
    Safe cfg (input :: inputs) server ↔
      ∃ next, receive cfg input server = some next ∧ Safe cfg inputs next := by
  constructor
  · intro hsafe
    obtain ⟨last, hrun, -⟩ := hsafe [input] (by simp)
    rw [serverParser, if_neg hesc] at hrun
    obtain ⟨next, hnext, -⟩ := Option.bind_eq_some_iff.1 hrun
    refine ⟨next, hnext, fun received hreceived => ?_⟩
    obtain ⟨last, hrun, hlast⟩ := hsafe (input :: received) (by simpa using hreceived)
    rw [serverParser, if_neg hesc, hnext] at hrun
    exact ⟨last, hrun, hlast⟩
  · rintro ⟨next, hnext, hsafe⟩ received hreceived
    cases received with
    | nil => exact ⟨server, rfl, hserver⟩
    | cons first received =>
      obtain ⟨rfl, hrest⟩ := List.cons_prefix_cons.1 hreceived
      obtain ⟨last, hrun, hlast⟩ := hsafe received hrest
      refine ⟨last, ?_, hlast⟩
      rw [serverParser, if_neg hesc, hnext]
      exact hrun

theorem safe_escape {inputs : List Input} {server : Server} (hesc : input.ch = escKey)
    (hserver : server.curRecvLen ≤ cfg.recvBuffLen) :
    Safe cfg (input :: inputs) server := by
  intro received hreceived
  cases received with
  | nil => exact ⟨server, rfl, hserver⟩
  | cons first received =>
    obtain ⟨rfl, -⟩ := List.cons_prefix_cons.1 hreceived
    exact ⟨server, if_pos hesc, hserver⟩

/-- A server with any line pending stays inside its buffers exactly as long as every byte finds
room for a zero behind it and every name is short enough. -/
theorem safe_iff_admitsRun (cfg : Config) (inputs : List Input) (line : List UInt8)
    (echoMode : Bool) (hline : line.length ≤ cfg.recvBuffLen) :
    Safe cfg inputs (held cfg line echoMode) ↔ AdmitsRun cfg inputs line echoMode := by
  induction inputs generalizing line echoMode with
  | nil =>
    refine ⟨fun _ => trivial, fun _ received hreceived => ?_⟩
    rw [List.prefix_nil.1 hreceived]
    exact ⟨_, rfl, hline⟩
  | cons input inputs ih =>
    by_cases hesc : input.ch = escKey
    · exact ⟨fun _ => Or.inl hesc, fun _ => safe_escape hesc hline⟩
    · have hrest : AdmitsRun cfg (input :: inputs) line echoMode ↔ _ :=
        or_iff_right hesc
      rw [safe_cons hesc hline, hrest]
      by_cases hadmits : Admits cfg input line echoMode
      · rw [receive_admits hline hadmits, ← ih _ _ (length_lineStep hline hadmits)]
        simp [hadmits]
      · rw [receive_not_admits hline hadmits]
        simp [hadmits]

/-- An unfinished `AT` in a small buffer, with room for its end mark. -/
theorem safe_iff_admitsRun_at :
    2 ≤ 8 ∧ (Safe ⟨8, 4, [0x0d, 0x0a], []⟩ [⟨0x0d, true⟩, ⟨0x0a, true⟩]
        (held ⟨8, 4, [0x0d, 0x0a], []⟩ [0x41, 0x54] true) ↔
      AdmitsRun ⟨8, 4, [0x0d, 0x0a], []⟩ [⟨0x0d, true⟩, ⟨0x0a, true⟩] [0x41, 0x54] true) :=
  ⟨by decide, safe_iff_admitsRun ⟨8, 4, [0x0d, 0x0a], []⟩ [⟨0x0d, true⟩, ⟨0x0a, true⟩]
    [0x41, 0x54] true (by decide)⟩

/-- The values of `at.h`, and the default end mark. -/
def atConfig (cmdTable : List AtCmd) : Config :=
  ⟨256, 16, [0x0d, 0x0a], cmdTable⟩

/-- A line of sixteen letters and the end mark. -/
def longName : List Input :=
  List.replicate 16 ⟨0x41, false⟩ ++ [⟨0x0d, false⟩, ⟨0x0a, false⟩]

/-- Its name and the zero behind it need seventeen bytes. -/
theorem longName_outside :
    ¬ ∀ (inputs : List Input) (echoMode : Bool),
      Safe (atConfig []) inputs (held (atConfig []) [] echoMode) := by
  intro hsafe
  obtain ⟨last, hlast, -⟩ := hsafe longName false longName (List.prefix_refl _)
  have hnone : serverParser (atConfig []) longName (held (atConfig []) [] false) = none := by
    decide +kernel
  rw [hnone] at hlast
  cases hlast

end RtThread.AtServer
