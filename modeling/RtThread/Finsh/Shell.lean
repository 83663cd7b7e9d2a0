import RtThread.Core.EditLine

set_option linter.all false

/-!
# The line editor of the shell

The loop over the keys in `finsh_thread_entry` of `shell.c` and `shell_push_history`, in a build
with `FINSH_USING_HISTORY`.  An array is a function of the index, of which the first
`FINSH_CMD_SIZE` values count; the counters wrap around at 8 and 16 bits.
-/

namespace RtThread.Finsh

open Function
open RtThread.Core

/-- `FINSH_CMD_SIZE` and `FINSH_HISTORY_LINES`, the sizes of arrays; `history_count` can count
the lines. -/
structure ShellConfig where
  cmdSize : ℕ
  historyLines : ℕ
  cmdSize_pos : 0 < cmdSize
  historyLines_pos : 0 < historyLines
  historyLines_lt : historyLines < 2 ^ 16

inductive InputStat
  | waitNormal | waitSpecKey | waitFuncKey

structure FinshShell where
  stat : InputStat
  currentHistory : ℕ
  historyCount : ℕ
  cmdHistory : ℕ → ℕ → UInt8
  line : ℕ → UInt8
  linePosition : ℕ
  lineCurpos : ℕ

/-- What `finsh_getchar` returns, nothing when that is negative, and the line that the completion
would leave. -/
structure KeyPress where
  ch : Option UInt8
  completed : ℕ → UInt8

def finshShellInit : FinshShell where
  stat := .waitNormal
  currentHistory := 0
  historyCount := 0
  cmdHistory := fun _ _ => 0
  line := fun _ => 0
  linePosition := 0
  lineCurpos := 0

namespace FinshShell

variable (cfg : ShellConfig) (shell : FinshShell)

/-- `memcmp(..) != 0`. -/
def differs (index : ℕ) : Prop :=
  ∃ slot < cfg.cmdSize, shell.cmdHistory index slot ≠ shell.line slot

instance (index : ℕ) : Decidable (shell.differs cfg index) :=
  inferInstanceAs (Decidable (∃ slot < cfg.cmdSize, _))

/-- The history with the line at an index. -/
def storeLine (cmdHistory : ℕ → ℕ → UInt8) (index : ℕ) : ℕ → ℕ → UInt8 :=
  update cmdHistory index
    (memcpy (memzero (cmdHistory index) cfg.cmdSize) shell.line shell.linePosition)

/-- The loop that moves the history by one line. -/
def moveHistory : ℕ → (ℕ → ℕ → UInt8) → ℕ → ℕ → UInt8
  | 0, cmdHistory => cmdHistory
  | index + 1, cmdHistory =>
    let cmdHistory := moveHistory index cmdHistory
    update cmdHistory index
      (memcpy (cmdHistory index) (cmdHistory (index + 1)) cfg.cmdSize)

def shellPushHistory : FinshShell :=
  let shell :=
    if shell.linePosition ≠ 0 then
      if cfg.historyLines ≤ shell.historyCount then
        if shell.differs cfg (cfg.historyLines - 1) then
          let cmdHistory := moveHistory cfg (cfg.historyLines - 1) shell.cmdHistory
          { shell with
            cmdHistory := shell.storeLine cfg cmdHistory (cfg.historyLines - 1)
            historyCount := cfg.historyLines }
        else shell
      else if shell.historyCount = 0 ∨ shell.differs cfg (shell.historyCount - 1) then
        { shell with
          currentHistory := shell.historyCount
          cmdHistory := shell.storeLine cfg shell.cmdHistory shell.historyCount
          historyCount := (shell.historyCount + 1) % 2 ^ 16 }
      else shell
    else shell
  { shell with currentHistory := shell.historyCount }

/-- The line is read anew: both positions are at its end. -/
def toEnd : Option FinshShell := do
  let length ← strlen shell.line cfg.cmdSize
  return { shell with linePosition := length % 2 ^ 8, lineCurpos := length % 2 ^ 8 }

/-- Copy the history command at `current_history`. -/
def handleHistory : Option FinshShell :=
  { shell with
    line := memcpy shell.line (shell.cmdHistory shell.currentHistory) cfg.cmdSize }.toEnd cfg

def upKey : Option FinshShell :=
  if 0 < shell.currentHistory then
    { shell with currentHistory := shell.currentHistory - 1 }.handleHistory cfg
  else some { shell with currentHistory := 0 }

def downKey : Option FinshShell :=
  if shell.currentHistory + 1 < shell.historyCount then
    { shell with currentHistory := shell.currentHistory + 1 }.handleHistory cfg
  else if shell.historyCount ≠ 0 then
    { shell with currentHistory := shell.historyCount - 1 }.handleHistory cfg
  else some shell

def leftKey : FinshShell :=
  if shell.lineCurpos ≠ 0 then { shell with lineCurpos := shell.lineCurpos - 1 } else shell

def rightKey : FinshShell :=
  if shell.lineCurpos < shell.linePosition then { shell with lineCurpos := shell.lineCurpos + 1 }
  else shell

def tabKey (completed : ℕ → UInt8) : Option FinshShell :=
  { shell with line := completed }.toEnd cfg

def backspaceKey : FinshShell :=
  if shell.lineCurpos = 0 then shell
  else
    let linePosition := (shell.linePosition + 0xff) % 2 ^ 8
    let lineCurpos := shell.lineCurpos - 1
    let line :=
      if lineCurpos < linePosition then
        memmove shell.line lineCurpos (lineCurpos + 1) (linePosition - lineCurpos)
      else shell.line
    { shell with linePosition, lineCurpos, line := update line linePosition 0 }

/-- The end of a line; the line is cleared after it was run. -/
def enterKey : FinshShell :=
  let shell := shell.shellPushHistory cfg
  { shell with line := memzero shell.line cfg.cmdSize, lineCurpos := 0, linePosition := 0 }

def normalKey (ch : UInt8) : FinshShell :=
  let linePosition := if cfg.cmdSize ≤ shell.linePosition then 0 else shell.linePosition
  let line :=
    if shell.lineCurpos < linePosition then
      update (memmove shell.line (shell.lineCurpos + 1) shell.lineCurpos
        (linePosition - shell.lineCurpos)) shell.lineCurpos ch
    else update shell.line linePosition ch
  let linePosition := (linePosition + 1) % 2 ^ 8
  let lineCurpos := (shell.lineCurpos + 1) % 2 ^ 8
  if cfg.cmdSize ≤ linePosition then { shell with line, linePosition := 0, lineCurpos := 0 }
  else { shell with line, linePosition, lineCurpos }

/-- A key that is no part of an arrow sequence. -/
def plainKey (ch : UInt8) (completed : ℕ → UInt8) : Option FinshShell :=
  if ch = 0 ∨ ch = 0xff then some shell
  else if ch = 0x09 then shell.tabKey cfg completed
  else if ch = 0x7f ∨ ch = 0x08 then some shell.backspaceKey
  else if ch = 0x0d ∨ ch = 0x0a then some (shell.enterKey cfg)
  else some (shell.normalKey cfg ch)

/-- The body of the loop in `finsh_thread_entry`. -/
def handleKey (key : KeyPress) : Option FinshShell :=
  match key.ch with
  | none => some shell
  | some ch =>
    if ch = 0x1b then some { shell with stat := .waitSpecKey }
    else
      match shell.stat with
      | .waitSpecKey =>
        if ch = 0x5b then some { shell with stat := .waitFuncKey }
        else { shell with stat := .waitNormal }.plainKey cfg ch key.completed
      | .waitFuncKey =>
        let shell := { shell with stat := .waitNormal }
        if ch = 0x41 then shell.upKey cfg
        else if ch = 0x42 then shell.downKey cfg
        else if ch = 0x44 then some shell.leftKey
        else if ch = 0x43 then some shell.rightKey
        else shell.plainKey cfg ch key.completed
      | .waitNormal => shell.plainKey cfg ch key.completed

end FinshShell

/-- `finsh_thread_entry` as a machine over the keys. -/
def finshThreadEntry (cfg : ShellConfig) : Machine FinshShell KeyPress Unit where
  step := fun shell key => (shell.handleKey cfg key).map fun shell => (shell, ())

end RtThread.Finsh
