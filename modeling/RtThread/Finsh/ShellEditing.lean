import RtThread.Core.Recorder
import RtThread.Finsh.Shell

set_option linter.all false

/-!
# What the line editor edits

A session at the shell is a line of text with a cursor and the lines that were entered.  As long
as no line is typed that fills the buffer, `finsh_thread_entry` follows the session: an
overlong line resets the positions, but the text of it stays in the buffer.
-/

namespace RtThread.Finsh

open Function
open RtThread.Core

/-! ## Sessions -/

inductive EditKey
  | insert (ch : UInt8)
  | delete | enter | up | down | left | right | complete | nothing

def plainKeyOf (ch : UInt8) : EditKey :=
  if ch = 0 ∨ ch = 0xff then .nothing
  else if ch = 0x09 then .complete
  else if ch = 0x7f ∨ ch = 0x08 then .delete
  else if ch = 0x0d ∨ ch = 0x0a then .enter
  else .insert ch

/-- The key that a byte stands for, behind the bytes before it. -/
def editKeyOf : InputStat → UInt8 → InputStat × EditKey
  | .waitNormal, ch => if ch = 0x1b then (.waitSpecKey, .nothing) else (.waitNormal, plainKeyOf ch)
  | .waitSpecKey, ch =>
    if ch = 0x1b then (.waitSpecKey, .nothing)
    else if ch = 0x5b then (.waitFuncKey, .nothing) else (.waitNormal, plainKeyOf ch)
  | .waitFuncKey, ch =>
    if ch = 0x1b then (.waitSpecKey, .nothing)
    else if ch = 0x41 then (.waitNormal, .up)
    else if ch = 0x42 then (.waitNormal, .down)
    else if ch = 0x44 then (.waitNormal, .left)
    else if ch = 0x43 then (.waitNormal, .right)
    else (.waitNormal, plainKeyOf ch)

/-- The lines that are remembered. -/
def historyOf (cfg : ShellConfig) (entered : List (List UInt8)) : List (List UInt8) :=
  newest cfg.historyLines ((entered.filter (· ≠ [])).destutter (· ≠ ·))

structure Session where
  stat : InputStat
  line : EditLine UInt8
  entered : List (List UInt8)
  /-- The place in the history of the line that the next arrow key goes on from. -/
  recalled : ℕ

namespace Session

variable (cfg : ShellConfig) (session : Session)

def start : Session :=
  ⟨.waitNormal, .empty, [], 0⟩

/-- Take a line from the history. -/
def recallLine (index : ℕ) : Session :=
  { session with
    line := .ofText ((historyOf cfg session.entered)[index]?.getD [])
    recalled := index }

def apply (completed : List UInt8) : EditKey → Session
  | .insert ch => { session with line := session.line.insert ch }
  | .delete => { session with line := session.line.delete }
  | .left => { session with line := session.line.left }
  | .right => { session with line := session.line.right }
  | .complete => { session with line := .ofText completed }
  | .up => if session.recalled = 0 then session else session.recallLine cfg
    (session.recalled - 1)
  | .down =>
    let count := (historyOf cfg session.entered).length
    if count = 0 then session
    else session.recallLine cfg (min (session.recalled + 1) (count - 1))
  | .enter =>
    let entered := session.entered ++ [session.line.text]
    { session with line := .empty, entered, recalled := (historyOf cfg entered).length }
  | .nothing => session

def press (key : KeyPress) : Session :=
  match key.ch with
  | none => session
  | some ch =>
    let (stat, editKey) := editKeyOf session.stat ch
    { session with stat }.apply cfg (textOf key.completed cfg.cmdSize) editKey

end Session

/-- The shell beside the session. -/
def shellSession (cfg : ShellConfig) : Machine (FinshShell × Session) KeyPress Unit :=
  (finshThreadEntry cfg).recorded fun session _ key _ _ => session.press cfg key

/-- The key that comes next. -/
def FinshShell.editKey (shell : FinshShell) (key : KeyPress) : EditKey :=
  match key.ch with
  | none => .nothing
  | some ch => (editKeyOf shell.stat ch).2

/-- A text that the buffer and the positions have room for. -/
structure Fitting (cfg : ShellConfig) (text : List UInt8) : Prop where
  zero_notMem : 0 ∉ text
  length_lt : text.length < cfg.cmdSize
  length_lt_byte : text.length < 2 ^ 8

instance (cfg : ShellConfig) (text : List UInt8) : Decidable (Fitting cfg text) :=
  decidable_of_iff (0 ∉ text ∧ text.length < cfg.cmdSize ∧ text.length < 2 ^ 8)
    ⟨fun h => ⟨h.1, h.2.1, h.2.2⟩, fun h => ⟨h.1, h.2, h.3⟩⟩

/-- A character does not fill the buffer, and the completion leaves zeros behind its string. -/
def EditKey.HasRoom (cfg : ShellConfig) (shell : FinshShell) (completed : ℕ → UInt8) :
    EditKey → Prop
  | .insert _ => shell.linePosition + 1 < cfg.cmdSize ∧ shell.linePosition + 1 < 2 ^ 8
  | .complete =>
    Fitting cfg (textOf completed cfg.cmdSize) ∧
      Padded cfg.cmdSize completed (textOf completed cfg.cmdSize)
  | _ => True

instance (cfg : ShellConfig) (shell : FinshShell) (completed : ℕ → UInt8) (editKey : EditKey) :
    Decidable (editKey.HasRoom cfg shell completed) :=
  match editKey with
  | .insert _ => inferInstanceAs (Decidable (_ ∧ _))
  | .complete => inferInstanceAs (Decidable (_ ∧ _))
  | .delete | .enter | .up | .down | .left | .right | .nothing => inferInstanceAs (Decidable True)

def roomForKey (cfg : ShellConfig) (shell : FinshShell) (key : KeyPress) : Prop :=
  (shell.editKey key).HasRoom cfg shell key.completed

instance (cfg : ShellConfig) (shell : FinshShell) (key : KeyPress) :
    Decidable (roomForKey cfg shell key) :=
  inferInstanceAs (Decidable ((shell.editKey key).HasRoom ..))

/-- The shell holds the line and the history of the session. -/
structure FollowsSession (cfg : ShellConfig) (shell : FinshShell) (session : Session) :
    Prop where
  curpos_le : shell.lineCurpos ≤ shell.linePosition
  position_lt : shell.linePosition < cfg.cmdSize
  nonzero : ∀ slot < shell.linePosition, shell.line slot ≠ 0
  zeros : ∀ slot, shell.linePosition ≤ slot → slot < cfg.cmdSize → shell.line slot = 0
  text_eq : (List.range shell.linePosition).map shell.line = session.line.text
  cursor_eq : shell.lineCurpos = session.line.cursor
  history_eq : (List.range shell.historyCount).map
    (fun index => textOf (shell.cmdHistory index) cfg.cmdSize) =
      historyOf cfg session.entered

/-! ## The line -/

/-- The buffer holds a line. -/
structure HoldsLine (cfg : ShellConfig) (shell : FinshShell) (line : EditLine UInt8) :
    Prop where
  fitting : Fitting cfg line.text
  padded : Padded cfg.cmdSize shell.line line.text
  position_eq : shell.linePosition = line.text.length
  curpos_eq : shell.lineCurpos = line.cursor

variable {cfg : ShellConfig} {shell next : FinshShell} {session : Session}
  {line : EditLine UInt8} {text : List UInt8} {key : KeyPress} {ch : UInt8}

theorem Fitting.nil : Fitting cfg [] :=
  ⟨List.not_mem_nil, cfg.cmdSize_pos, Nat.two_pow_pos 8⟩

theorem Fitting.insertIdx (hfitting : Fitting cfg text) {index : ℕ} (hch : ch ≠ 0)
    (hlength : text.length + 1 < cfg.cmdSize) (hbyte : text.length + 1 < 2 ^ 8) :
    Fitting cfg (text.insertIdx index ch) where
  zero_notMem hmem := by
    rcases List.eq_or_mem_of_mem_insertIdx hmem with heq | hmem
    · exact hch heq.symm
    · exact hfitting.zero_notMem hmem
  length_lt := (List.length_insertIdx_le_succ ..).trans_lt hlength
  length_lt_byte := (List.length_insertIdx_le_succ ..).trans_lt hbyte

theorem Fitting.eraseIdx (hfitting : Fitting cfg text) (index : ℕ) :
    Fitting cfg (text.eraseIdx index) where
  zero_notMem hmem := hfitting.zero_notMem (List.mem_of_mem_eraseIdx hmem)
  length_lt := (List.length_eraseIdx_le ..).trans_lt hfitting.length_lt
  length_lt_byte := (List.length_eraseIdx_le ..).trans_lt hfitting.length_lt_byte

/-- The shell after its line was read anew, when it holds the text. -/
def FinshShell.atEnd (shell : FinshShell) (text : List UInt8) : FinshShell :=
  { shell with linePosition := text.length, lineCurpos := text.length }

namespace HoldsLine

/-- A character goes in front of the cursor, wherever the positions are then. -/
theorem normalKey_padded (hholds : HoldsLine cfg shell line) (ch : UInt8) :
    Padded cfg.cmdSize (shell.normalKey cfg ch).line (line.insert ch).text := by
  have hcursor := line.cursor_le
  have hposition := hholds.position_eq
  have hcurpos := hholds.curpos_eq
  have hsmall : ¬ cfg.cmdSize ≤ shell.linePosition := by
    rw [hposition]
    exact hholds.fitting.length_lt.not_ge
  have hline : (shell.normalKey cfg ch).line =
      if shell.lineCurpos < shell.linePosition then
        update (memmove shell.line (shell.lineCurpos + 1) shell.lineCurpos
          (shell.linePosition - shell.lineCurpos)) shell.lineCurpos ch
      else update shell.line shell.linePosition ch := by
    simp only [FinshShell.normalKey, if_neg hsmall]
    split_ifs <;> rfl
  rw [hline, hcurpos, hposition]
  split_ifs with hmiddle
  · exact hholds.padded.insert hcursor
  · have hend : line.cursor = line.text.length := by omega
    have hpadded := @Padded.insert _ _ _ _ _ _ ch hholds.padded hcursor
    rw [hend, Nat.sub_self, memmove_zero] at hpadded
    rw [EditLine.text_insert, hend]
    exact hpadded

theorem insert (hholds : HoldsLine cfg shell line) (hch : ch ≠ 0)
    (hroom : shell.linePosition + 1 < cfg.cmdSize) (hbyte : shell.linePosition + 1 < 2 ^ 8) :
    HoldsLine cfg (shell.normalKey cfg ch) (line.insert ch) := by
  have hcursor := line.cursor_le
  have hposition := hholds.position_eq
  have hcurpos := hholds.curpos_eq
  have hsmall : ¬ cfg.cmdSize ≤ shell.linePosition := by omega
  have hbyte' : shell.lineCurpos + 1 < 2 ^ 8 := by omega
  have hpositions : (shell.normalKey cfg ch).linePosition = shell.linePosition + 1 ∧
      (shell.normalKey cfg ch).lineCurpos = shell.lineCurpos + 1 := by
    simp only [FinshShell.normalKey, if_neg hsmall, Nat.mod_eq_of_lt hbyte,
      Nat.mod_eq_of_lt hbyte', if_neg hroom.not_ge, and_self]
  exact
    { fitting := hholds.fitting.insertIdx hch (by omega) (by omega)
      padded := hholds.normalKey_padded ch
      position_eq := by rw [hpositions.1, EditLine.length_insert, hposition]
      curpos_eq := by rw [hpositions.2, EditLine.cursor_insert, hcurpos] }

theorem delete (hholds : HoldsLine cfg shell line) :
    HoldsLine cfg shell.backspaceKey line.delete := by
  have hcursor := line.cursor_le
  have hposition := hholds.position_eq
  have hcurpos := hholds.curpos_eq
  have hbyte := hholds.fitting.length_lt_byte
  by_cases hzero : line.cursor = 0
  · rw [FinshShell.backspaceKey, if_pos (hcurpos.trans hzero), line.delete_of_zero hzero]
    exact hholds
  obtain ⟨htext, hbefore⟩ := line.delete_of_pos (Nat.pos_of_ne_zero hzero)
  have hshrunk : (shell.linePosition + 0xff) % 2 ^ 8 = line.text.length - 1 := by omega
  have hline : (if shell.lineCurpos - 1 < line.text.length - 1 then
      memmove shell.line (shell.lineCurpos - 1) (shell.lineCurpos - 1 + 1)
        (line.text.length - 1 - (shell.lineCurpos - 1))
      else shell.line) =
        memmove shell.line (line.cursor - 1) line.cursor (line.text.length - line.cursor) := by
    have hback : line.cursor - 1 + 1 = line.cursor := by omega
    rw [hcurpos, hback]
    split_ifs with hmiddle
    · congr 1
      omega
    · have hend : line.text.length - line.cursor = 0 := by omega
      rw [hend, memmove_zero]
  rw [FinshShell.backspaceKey, if_neg (by omega), hshrunk]
  dsimp only
  rw [hline]
  exact
    { fitting := htext ▸ hholds.fitting.eraseIdx _
      padded := htext ▸ hholds.padded.delete hholds.fitting.length_lt.le
        (Nat.pos_of_ne_zero hzero) hcursor
      position_eq := by
        rw [htext, List.length_eraseIdx, if_pos (by omega)]
      curpos_eq := by
        rw [hbefore]
        exact congrArg (· - 1) hcurpos }

theorem left (hholds : HoldsLine cfg shell line) : HoldsLine cfg shell.leftKey line.left := by
  have hcurpos := hholds.curpos_eq
  have hleft : shell.leftKey = { shell with lineCurpos := shell.lineCurpos - 1 } := by
    rw [FinshShell.leftKey]
    split_ifs with hpos
    · rfl
    · have hzero : shell.lineCurpos - 1 = shell.lineCurpos := by omega
      rw [hzero]
  rw [hleft]
  exact { hholds with curpos_eq := congrArg (· - 1) hcurpos }

theorem right (hholds : HoldsLine cfg shell line) :
    HoldsLine cfg shell.rightKey line.right := by
  have hposition := hholds.position_eq
  have hcurpos := hholds.curpos_eq
  have hright : shell.rightKey = { shell with lineCurpos :=
      if line.cursor < line.text.length then line.cursor + 1 else line.cursor } := by
    rw [FinshShell.rightKey, hposition, hcurpos]
    split_ifs
    · rw [← hposition]
    · rw [← hposition, ← hcurpos]
  rw [hright]
  exact
    { fitting := line.text_right ▸ hholds.fitting
      padded := line.text_right ▸ hholds.padded
      position_eq := line.text_right ▸ hposition
      curpos_eq := line.cursor_right.symm }

theorem toEnd_eq (hfitting : Fitting cfg text)
    (hpadded : Padded cfg.cmdSize shell.line text) :
    shell.toEnd cfg = some (shell.atEnd text) := by
  have hlength := hpadded.strlen hfitting.zero_notMem hfitting.length_lt
  rw [FinshShell.toEnd, hlength, Option.bind_eq_bind, Option.bind_some,
    Nat.mod_eq_of_lt hfitting.length_lt_byte]
  rfl

theorem atEnd (hfitting : Fitting cfg text) (hpadded : Padded cfg.cmdSize shell.line text) :
    HoldsLine cfg (shell.atEnd text) (.ofText text) :=
  ⟨hfitting, hpadded, rfl, rfl⟩

end HoldsLine

/-! ## The history -/

/-- An array holds some lines. -/
structure HoldsLines (cfg : ShellConfig) (count : ℕ) (cmdHistory : ℕ → ℕ → UInt8)
    (lines : List (List UInt8)) : Prop where
  count_eq : count = lines.length
  padded : ∀ index (hindex : index < lines.length),
    Padded cfg.cmdSize (cmdHistory index) lines[index]

/-- The lines that are remembered, and the place that the arrow keys go on from. -/
structure HoldsHistory (cfg : ShellConfig) (shell : FinshShell) (session : Session) : Prop where
  fitting : ∀ line ∈ session.entered, Fitting cfg line
  lines : HoldsLines cfg shell.historyCount shell.cmdHistory (historyOf cfg session.entered)
  current_eq : shell.currentHistory = session.recalled
  recalled_le : session.recalled ≤ (historyOf cfg session.entered).length

theorem historyOf_nil (cfg : ShellConfig) : historyOf cfg [] = [] := by
  rw [historyOf, List.filter_nil, List.destutter_nil, newest, List.drop_nil]

theorem historyOf_concat_nil (cfg : ShellConfig) (entered : List (List UInt8)) :
    historyOf cfg (entered ++ [[]]) = historyOf cfg entered := by
  rw [historyOf, List.filter_append]
  simp [historyOf]

theorem mem_of_mem_historyOf {entered : List (List UInt8)}
    (hmem : text ∈ historyOf cfg entered) : text ∈ entered := by
  have hdestutter := List.mem_of_mem_drop hmem
  exact List.mem_of_mem_filter ((List.destutter_sublist _ _).subset hdestutter)

theorem length_historyOf_le (cfg : ShellConfig) (entered : List (List UInt8)) :
    (historyOf cfg entered).length ≤ cfg.historyLines := by
  rw [historyOf, length_newest]
  exact min_le_right _ _

theorem getLast?_newest {capacity : ℕ} (hcapacity : 0 < capacity) (lines : List (List UInt8)) :
    (newest capacity lines).getLast? = lines.getLast? := by
  cases lines with
  | nil => rw [newest, List.drop_nil]
  | cons first lines =>
    rw [newest, List.getLast?_drop, if_neg]
    rw [List.length_cons]
    omega

/-- A line that is not empty and does not repeat the last one is remembered, and the oldest line
is forgotten when there are too many. -/
theorem historyOf_concat {entered : List (List UInt8)} (htext : text ≠ []) :
    historyOf cfg (entered ++ [text]) =
      if (historyOf cfg entered).getLast? = some text then historyOf cfg entered
      else if (historyOf cfg entered).length < cfg.historyLines then
        historyOf cfg entered ++ [text]
      else (historyOf cfg entered).drop 1 ++ [text] := by
  have hfilter : (entered ++ [text]).filter (· ≠ []) = entered.filter (· ≠ []) ++ [text] := by
    rw [List.filter_append]
    simp [htext]
  rw [historyOf, hfilter, destutter_ne_concat, historyOf, getLast?_newest cfg.historyLines_pos]
  generalize (entered.filter (· ≠ [])).destutter (· ≠ ·) = lines
  have hpos := cfg.historyLines_pos
  split_ifs with hrepeated hroom
  · rfl
  · rw [length_newest] at hroom
    rw [newest_append (by exact hpos), newest, List.length_singleton]
    congr 2
    omega
  · rw [length_newest] at hroom
    rw [newest_append (by exact hpos), newest, List.drop_drop, List.length_singleton]
    congr 2
    omega

theorem moveHistory_apply (cfg : ShellConfig) (cmdHistory : ℕ → ℕ → UInt8) (count index : ℕ)
    {slot : ℕ} (hslot : slot < cfg.cmdSize) :
    FinshShell.moveHistory cfg count cmdHistory index slot =
      if index < count then cmdHistory (index + 1) slot else cmdHistory index slot := by
  induction count generalizing index with
  | zero => rw [FinshShell.moveHistory, if_neg (Nat.not_lt_zero _)]
  | succ count ih =>
    rw [FinshShell.moveHistory]
    by_cases hlast : index = count
    · rw [hlast, update_self, memcpy, if_pos hslot, ih, if_neg (by omega),
        if_pos (Nat.lt_succ_self _)]
    · rw [update_of_ne hlast, ih]
      by_cases hbefore : index < count
      · rw [if_pos hbefore, if_pos (by omega)]
      · rw [if_neg hbefore, if_neg (by omega)]

namespace HoldsHistory

theorem fitting_getElem (hhistory : HoldsHistory cfg shell session) {index : ℕ}
    (hindex : index < (historyOf cfg session.entered).length) :
    Fitting cfg (historyOf cfg session.entered)[index] :=
  hhistory.fitting _ (mem_of_mem_historyOf (List.getElem_mem hindex))

/-- The comparison of the buffers is that of the lines. -/
theorem differs_iff (hhistory : HoldsHistory cfg shell session)
    (hline : HoldsLine cfg shell line) {index : ℕ}
    (hindex : index + 1 = (historyOf cfg session.entered).length) :
    shell.differs cfg index ↔
      (historyOf cfg session.entered).getLast? ≠ some line.text := by
  have hlt : index < (historyOf cfg session.entered).length := by omega
  have hfitting := hhistory.fitting_getElem hlt
  have hsame := (hhistory.lines.padded index hlt).eq_iff hline.padded hfitting.zero_notMem
    hline.fitting.zero_notMem hfitting.length_lt.le hline.fitting.length_lt.le
  have hlast : (historyOf cfg session.entered).getLast? =
      some (historyOf cfg session.entered)[index] := by
    rw [List.getLast?_eq_getElem?, ← hindex, Nat.add_sub_cancel, List.getElem?_eq_getElem hlt]
  rw [hlast, FinshShell.differs, ne_eq, Option.some.injEq, ← hsame]
  push Not
  rfl

end HoldsHistory

theorem HoldsLines.store {count : ℕ} {cmdHistory : ℕ → ℕ → UInt8} {lines : List (List UInt8)}
    (hlines : HoldsLines cfg count cmdHistory lines) (hline : HoldsLine cfg shell line) :
    HoldsLines cfg (count + 1) (shell.storeLine cfg cmdHistory count)
      (lines ++ [line.text]) where
  count_eq := by
    rw [List.length_append, hlines.count_eq]
    rfl
  padded index hindex := by
    rw [FinshShell.storeLine, hline.position_eq]
    by_cases hlast : index = count
    · subst hlast
      rw [update_self, List.getElem_concat_length hlines.count_eq]
      exact hline.padded.memcpy_text
    · rw [List.length_append, List.length_singleton, ← hlines.count_eq] at hindex
      have hold : index < lines.length := by
        rw [← hlines.count_eq]
        omega
      rw [update_of_ne hlast, List.getElem_append_left hold]
      exact hlines.padded index hold

theorem HoldsLines.move {count : ℕ} {cmdHistory : ℕ → ℕ → UInt8} {lines : List (List UInt8)}
    (hlines : HoldsLines cfg (count + 1) cmdHistory lines) :
    HoldsLines cfg count (FinshShell.moveHistory cfg count cmdHistory) (lines.drop 1) where
  count_eq := by
    rw [List.length_drop, ← hlines.count_eq, Nat.add_sub_cancel]
  padded index hindex slot hslot := by
    rw [List.length_drop, ← hlines.count_eq, Nat.add_sub_cancel] at hindex
    have hnext : index + 1 < lines.length := by
      rw [← hlines.count_eq]
      omega
    rw [moveHistory_apply cfg cmdHistory count index hslot, if_pos hindex,
      hlines.padded (index + 1) hnext slot hslot, List.getElem_drop]
    simp only [Nat.add_comm]

theorem HoldsHistory.push_lines (hhistory : HoldsHistory cfg shell session)
    (hline : HoldsLine cfg shell session.line) :
    HoldsLines cfg (shell.shellPushHistory cfg).historyCount
      (shell.shellPushHistory cfg).cmdHistory
      (historyOf cfg (session.entered ++ [session.line.text])) := by
  have hlines := hhistory.lines
  have hcount := hlines.count_eq
  have hle := length_historyOf_le cfg session.entered
  have hpos := cfg.historyLines_pos
  have hposition := hline.position_eq
  by_cases hempty : session.line.text = []
  · have hzero : ¬ shell.linePosition ≠ 0 := by
      rw [hposition, hempty]
      simp
    rw [FinshShell.shellPushHistory, if_neg hzero, hempty, historyOf_concat_nil]
    exact hlines
  have hnonzero : shell.linePosition ≠ 0 := by
    rw [hposition]
    exact List.length_pos_iff.2 hempty |>.ne'
  rw [FinshShell.shellPushHistory, if_pos hnonzero, historyOf_concat hempty]
  by_cases hfull : cfg.historyLines ≤ shell.historyCount
  · have hlast : cfg.historyLines - 1 + 1 = (historyOf cfg session.entered).length := by
      omega
    have hdiffers := hhistory.differs_iff hline hlast
    rw [if_pos hfull]
    by_cases hrepeated : (historyOf cfg session.entered).getLast? = some session.line.text
    · rw [if_neg (fun h => hdiffers.1 h hrepeated), if_pos hrepeated]
      exact hlines
    · rw [if_pos (hdiffers.2 hrepeated), if_neg hrepeated, if_neg (by omega)]
      have hall : shell.historyCount = cfg.historyLines - 1 + 1 := by omega
      rw [hall] at hlines
      have hstored := hlines.move.store hline
      rw [Nat.sub_add_cancel hpos] at hstored
      exact hstored
  · have hdiffers : (shell.historyCount = 0 ∨ shell.differs cfg (shell.historyCount - 1)) ↔
        (historyOf cfg session.entered).getLast? ≠ some session.line.text := by
      rcases Nat.eq_zero_or_pos shell.historyCount with hzero | hpos
      · have hnil : historyOf cfg session.entered = [] := by
          rw [← List.length_eq_zero_iff, ← hcount, hzero]
        rw [hnil]
        simp [hzero]
      · rw [hhistory.differs_iff hline (by omega)]
        exact or_iff_right hpos.ne'
    rw [if_neg hfull]
    by_cases hrepeated : (historyOf cfg session.entered).getLast? = some session.line.text
    · rw [if_neg (fun h => hdiffers.1 h hrepeated), if_pos hrepeated]
      exact hlines
    · rw [if_pos (hdiffers.2 hrepeated), if_neg hrepeated, if_pos (by omega)]
      have hbound := cfg.historyLines_lt
      have hwrap : (shell.historyCount + 1) % 2 ^ 16 = shell.historyCount + 1 :=
        Nat.mod_eq_of_lt (by omega)
      rw [hwrap]
      exact hlines.store hline

/-! ## Keys -/

/-- The shell is at the place of the session. -/
structure EditsSession (cfg : ShellConfig) (shell : FinshShell) (session : Session) : Prop where
  stat_eq : shell.stat = session.stat
  line : HoldsLine cfg shell session.line
  history : HoldsHistory cfg shell session

/-- Only the line and the positions have changed. -/
structure KeepsHistory (shell next : FinshShell) : Prop where
  stat_eq : next.stat = shell.stat
  current_eq : next.currentHistory = shell.currentHistory
  count_eq : next.historyCount = shell.historyCount
  cmdHistory_eq : next.cmdHistory = shell.cmdHistory

namespace FinshShell

theorem normalKey_keeps (cfg : ShellConfig) (shell : FinshShell) (ch : UInt8) :
    KeepsHistory shell (shell.normalKey cfg ch) := by
  rw [normalKey]
  split_ifs <;> exact ⟨rfl, rfl, rfl, rfl⟩

theorem backspaceKey_keeps (shell : FinshShell) : KeepsHistory shell shell.backspaceKey := by
  rw [backspaceKey]
  split_ifs <;> exact ⟨rfl, rfl, rfl, rfl⟩

theorem leftKey_keeps (shell : FinshShell) : KeepsHistory shell shell.leftKey := by
  rw [leftKey]
  split_ifs <;> exact ⟨rfl, rfl, rfl, rfl⟩

theorem rightKey_keeps (shell : FinshShell) : KeepsHistory shell shell.rightKey := by
  rw [rightKey]
  split_ifs <;> exact ⟨rfl, rfl, rfl, rfl⟩

end FinshShell

namespace EditsSession

theorem edit (hedits : EditsSession cfg shell session) (hkeeps : KeepsHistory shell next)
    (hline : HoldsLine cfg next line) : EditsSession cfg next { session with line } where
  stat_eq := hkeeps.stat_eq.trans hedits.stat_eq
  line := hline
  history :=
    { fitting := hedits.history.fitting
      lines := by
        rw [hkeeps.count_eq, hkeeps.cmdHistory_eq]
        exact hedits.history.lines
      current_eq := hkeeps.current_eq.trans hedits.history.current_eq
      recalled_le := hedits.history.recalled_le }

theorem tabKey (hedits : EditsSession cfg shell session) {completed : ℕ → UInt8}
    (hfitting : Fitting cfg text) (hpadded : Padded cfg.cmdSize completed text) :
    ∃ next, shell.tabKey cfg completed = some next ∧
      EditsSession cfg next { session with line := .ofText text } := by
  have hpadded' : Padded cfg.cmdSize { shell with line := completed }.line text := hpadded
  refine ⟨_, HoldsLine.toEnd_eq hfitting hpadded', ?_⟩
  exact hedits.edit ⟨rfl, rfl, rfl, rfl⟩ (HoldsLine.atEnd hfitting hpadded')

theorem enterKey (hedits : EditsSession cfg shell session) (completed : List UInt8) :
    EditsSession cfg (shell.enterKey cfg) (session.apply cfg completed .enter) := by
  have hpushed := hedits.history.push_lines hedits.line
  have hkeeps : (shell.shellPushHistory cfg).stat = shell.stat ∧
      (shell.shellPushHistory cfg).currentHistory =
        (shell.shellPushHistory cfg).historyCount := by
    rw [FinshShell.shellPushHistory]
    split_ifs <;> exact ⟨rfl, rfl⟩
  exact
    { stat_eq := hkeeps.1.trans hedits.stat_eq
      line := ⟨Fitting.nil, padded_memzero, rfl, rfl⟩
      history :=
        { fitting := by
            intro line hline
            rcases List.mem_append.1 hline with hline | hline
            · exact hedits.history.fitting line hline
            · rw [List.mem_singleton.1 hline]
              exact hedits.line.fitting
          lines := hpushed
          current_eq := hkeeps.2.trans hpushed.count_eq
          recalled_le := le_rfl } }

theorem handleHistory (hedits : EditsSession cfg shell session) {index : ℕ}
    (hindex : index < (historyOf cfg session.entered).length) :
    ∃ next, { shell with currentHistory := index }.handleHistory cfg = some next ∧
      EditsSession cfg next (session.recallLine cfg index) := by
  have hfitting := hedits.history.fitting_getElem hindex
  have hpadded : Padded cfg.cmdSize
      (memcpy shell.line (shell.cmdHistory index) cfg.cmdSize)
      (historyOf cfg session.entered)[index] :=
    (hedits.history.lines.padded index hindex).memcpy
  refine ⟨_, HoldsLine.toEnd_eq hfitting hpadded, ?_⟩
  rw [Session.recallLine, List.getElem?_eq_getElem hindex]
  exact
    { stat_eq := hedits.stat_eq
      line := HoldsLine.atEnd hfitting hpadded
      history :=
        { fitting := hedits.history.fitting
          lines := hedits.history.lines
          current_eq := rfl
          recalled_le := hindex.le } }

theorem upKey (hedits : EditsSession cfg shell session) (completed : List UInt8) :
    ∃ next, shell.upKey cfg = some next ∧
      EditsSession cfg next (session.apply cfg completed .up) := by
  have hcurrent := hedits.history.current_eq
  have hle := hedits.history.recalled_le
  rw [FinshShell.upKey, Session.apply, hcurrent]
  split_ifs with hpos hzero hzero
  · omega
  · exact hedits.handleHistory (by omega)
  · refine ⟨_, rfl, ?_⟩
    have hsame : { shell with currentHistory := 0 } = shell := by
      rw [← hzero, ← hcurrent]
    rw [hsame]
    exact hedits
  · omega

theorem downKey (hedits : EditsSession cfg shell session) (completed : List UInt8) :
    ∃ next, shell.downKey cfg = some next ∧
      EditsSession cfg next (session.apply cfg completed .down) := by
  have hcurrent := hedits.history.current_eq
  have hcount := hedits.history.lines.count_eq
  rw [FinshShell.downKey, Session.apply]
  by_cases hempty : (historyOf cfg session.entered).length = 0
  · rw [if_neg (by omega), if_neg (by omega), if_pos hempty]
    exact ⟨shell, rfl, hedits⟩
  rw [if_neg hempty]
  by_cases hnext : shell.currentHistory + 1 < shell.historyCount
  · rw [if_pos hnext, Nat.min_eq_left (by omega), hcurrent]
    exact hedits.handleHistory (by omega)
  · have hlast : shell.historyCount - 1 = (historyOf cfg session.entered).length - 1 := by
      omega
    rw [if_neg hnext, if_pos (by omega), Nat.min_eq_right (by omega), hlast]
    exact hedits.handleHistory (by omega)

theorem plainKey (hedits : EditsSession cfg shell session) {completed : ℕ → UInt8}
    (hroom : (plainKeyOf ch).HasRoom cfg shell completed) :
    ∃ next, shell.plainKey cfg ch completed = some next ∧
      EditsSession cfg next
        (session.apply cfg (textOf completed cfg.cmdSize) (plainKeyOf ch)) := by
  rw [FinshShell.plainKey]
  rw [plainKeyOf] at hroom ⊢
  split_ifs at hroom ⊢ with hnull htab hdelete henter
  · exact ⟨shell, rfl, hedits⟩
  · exact hedits.tabKey hroom.1 hroom.2
  · exact ⟨_, rfl, hedits.edit shell.backspaceKey_keeps hedits.line.delete⟩
  · exact ⟨_, rfl, hedits.enterKey _⟩
  · have hch : ch ≠ 0 := fun hzero => hnull (.inl hzero)
    exact ⟨_, rfl, hedits.edit (shell.normalKey_keeps cfg ch)
      (hedits.line.insert hch hroom.1 hroom.2)⟩

/-- The escape sequences change the state of the input alone. -/
theorem withStat (hedits : EditsSession cfg shell session) (stat : InputStat) :
    EditsSession cfg { shell with stat } { session with stat } where
  stat_eq := rfl
  line := ⟨hedits.line.fitting, hedits.line.padded, hedits.line.position_eq, hedits.line.curpos_eq⟩
  history := ⟨hedits.history.fitting, hedits.history.lines, hedits.history.current_eq,
    hedits.history.recalled_le⟩

theorem handleKey (hedits : EditsSession cfg shell session)
    (hroom : roomForKey cfg shell key) :
    ∃ next, shell.handleKey cfg key = some next ∧
      EditsSession cfg next (session.press cfg key) := by
  obtain ⟨ch, completed⟩ := key
  cases ch with
  | none => exact ⟨shell, rfl, hedits⟩
  | some ch =>
    have hstat := hedits.stat_eq
    rw [roomForKey, FinshShell.editKey] at hroom
    rw [FinshShell.handleKey, Session.press, ← hstat]
    dsimp only at hroom ⊢
    cases hcase : shell.stat with
    | waitNormal =>
      rw [hcase] at hroom
      rw [editKeyOf] at hroom ⊢
      dsimp only
      split_ifs at hroom ⊢ with hescape
      · exact ⟨_, rfl, hedits.withStat _⟩
      · have hplain := hedits.withStat .waitNormal
        have hsame : { shell with stat := .waitNormal } = shell := by rw [← hcase]
        rw [hsame] at hplain
        exact hplain.plainKey hroom
    | waitSpecKey =>
      rw [hcase] at hroom
      rw [editKeyOf] at hroom ⊢
      dsimp only
      split_ifs at hroom ⊢ with hescape hfunc
      · exact ⟨_, rfl, hedits.withStat _⟩
      · exact ⟨_, rfl, hedits.withStat _⟩
      · exact (hedits.withStat .waitNormal).plainKey hroom
    | waitFuncKey =>
      rw [hcase] at hroom
      rw [editKeyOf] at hroom ⊢
      have hnormal := hedits.withStat .waitNormal
      dsimp only
      split_ifs at hroom ⊢ with hescape hup hdown hleft hright
      · exact ⟨_, rfl, hedits.withStat _⟩
      · exact hnormal.upKey _
      · exact hnormal.downKey _
      · exact ⟨_, rfl, hnormal.edit (FinshShell.leftKey_keeps _) hnormal.line.left⟩
      · exact ⟨_, rfl, hnormal.edit (FinshShell.rightKey_keeps _) hnormal.line.right⟩
      · exact hnormal.plainKey hroom

theorem follows (hedits : EditsSession cfg shell session) :
    FollowsSession cfg shell session := by
  have hline := hedits.line
  have hposition := hline.position_eq
  have hfits := hline.fitting.length_lt
  have hlines := hedits.history.lines
  exact
    { curpos_le := by
        rw [hposition, hline.curpos_eq]
        exact session.line.cursor_le
      position_lt := by
        rw [hposition]
        exact hfits
      nonzero := by
        intro slot hslot hzero
        rw [hposition] at hslot
        rw [hline.padded slot (by omega), List.getElem?_eq_getElem hslot, Option.getD_some] at hzero
        exact hline.fitting.zero_notMem (hzero ▸ List.getElem_mem hslot)
      zeros := by
        intro slot hbehind hslot
        rw [hposition] at hbehind
        rw [hline.padded slot hslot, List.getElem?_eq_none hbehind]
        rfl
      text_eq := by
        rw [hposition]
        exact hline.padded.map_range hfits.le
      cursor_eq := hline.curpos_eq
      history_eq := by
        rw [hlines.count_eq]
        refine List.ext_getElem (by simp) fun index hleft hright => ?_
        have hfitting := hedits.history.fitting_getElem hright
        rw [List.getElem_map, List.getElem_range]
        exact (hlines.padded index hright).textOf hfitting.zero_notMem hfitting.length_lt }

end EditsSession

/-! ## Keys without room -/

namespace FinshShell

/-- A key that inserts or completes is no part of an arrow sequence. -/
theorem handleKey_of_plain (hnothing : shell.editKey key ≠ .nothing)
    (harrow : shell.editKey key ∉ [EditKey.up, .down, .left, .right]) :
    ∃ ch, shell.editKey key = plainKeyOf ch ∧
      shell.handleKey cfg key =
        { shell with stat := .waitNormal }.plainKey cfg ch key.completed := by
  obtain ⟨ch, completed⟩ := key
  cases ch with
  | none => exact absurd rfl hnothing
  | some ch =>
    refine ⟨ch, ?_⟩
    rw [editKey] at hnothing harrow ⊢
    rw [handleKey]
    dsimp only at hnothing harrow ⊢
    cases hcase : shell.stat with
    | waitNormal =>
      have hsame : { shell with stat := .waitNormal } = shell := by rw [← hcase]
      rw [hcase, editKeyOf] at hnothing harrow
      rw [hsame, editKeyOf]
      dsimp only at hnothing harrow ⊢
      split_ifs at hnothing harrow ⊢ with hescape
      · exact absurd rfl hnothing
      · exact ⟨rfl, rfl⟩
    | waitSpecKey =>
      rw [hcase, editKeyOf] at hnothing harrow
      rw [editKeyOf]
      dsimp only at hnothing harrow ⊢
      split_ifs at hnothing harrow ⊢ with hescape hfunc
      · exact absurd rfl hnothing
      · exact absurd rfl hnothing
      · exact ⟨rfl, rfl⟩
    | waitFuncKey =>
      rw [hcase, editKeyOf] at hnothing harrow
      rw [editKeyOf]
      dsimp only at hnothing harrow ⊢
      split_ifs at hnothing harrow ⊢ with hescape hup hdown hleft hright
      · exact absurd rfl hnothing
      · exact absurd List.mem_cons_self harrow
      · exact absurd (by simp) harrow
      · exact absurd (by simp) harrow
      · exact absurd (by simp) harrow
      · exact ⟨rfl, rfl⟩

end FinshShell

theorem plainKeyOf_eq_insert {ch' : UInt8} (hkey : plainKeyOf ch = .insert ch') :
    ch' = ch ∧ ch ≠ 0 ∧ shell.plainKey cfg ch key.completed =
      some (shell.normalKey cfg ch) := by
  rw [FinshShell.plainKey]
  rw [plainKeyOf] at hkey
  split_ifs at hkey ⊢ with hnull
  exact ⟨(EditKey.insert.inj hkey).symm, fun hzero => hnull (.inl hzero), rfl⟩

theorem plainKeyOf_eq_complete (hkey : plainKeyOf ch = .complete) :
    shell.plainKey cfg ch key.completed = shell.tabKey cfg key.completed := by
  rw [FinshShell.plainKey]
  rw [plainKeyOf] at hkey
  split_ifs at hkey ⊢
  rfl

/-- A character that fills the buffer stays in it although the positions are reset. -/
theorem HoldsLine.not_follows_overflow (hholds : HoldsLine cfg shell line) (hch : ch ≠ 0)
    (hfull : ¬ (shell.linePosition + 1 < cfg.cmdSize ∧ shell.linePosition + 1 < 2 ^ 8)) :
    ¬ FollowsSession cfg (shell.normalKey cfg ch) session := by
  intro hfollows
  have hposition := hholds.position_eq
  have hfits := hholds.fitting.length_lt
  have hbyte := hholds.fitting.length_lt_byte
  have hpos := cfg.cmdSize_pos
  have hreset : (shell.normalKey cfg ch).linePosition = 0 := by
    have hsmall : ¬ cfg.cmdSize ≤ shell.linePosition := by omega
    by_cases hover : cfg.cmdSize ≤ (shell.linePosition + 1) % 2 ^ 8
    · simp only [FinshShell.normalKey, if_neg hsmall, if_pos hover]
    · simp only [FinshShell.normalKey, if_neg hsmall, if_neg hover]
      omega
  have hzero := hfollows.zeros 0 (by rw [hreset]) hpos
  have hlength := line.length_insert ch
  rw [hholds.normalKey_padded ch 0 hpos, List.getElem?_eq_getElem (by omega),
    Option.getD_some] at hzero
  have hmem : (0 : UInt8) ∈ line.text.insertIdx line.cursor ch :=
    hzero ▸ List.getElem_mem _
  rcases List.eq_or_mem_of_mem_insertIdx hmem with heq | hmem
  · exact hch heq.symm
  · exact hholds.fitting.zero_notMem hmem

/-- A line that the shell reads anew is the string of the buffer only if zeros follow it. -/
theorem hasRoom_of_follows {completed : ℕ → UInt8}
    (htab : shell.tabKey cfg completed = some next)
    (hfollows : FollowsSession cfg next session) :
    EditKey.complete.HasRoom cfg shell completed := by
  rw [FinshShell.tabKey, FinshShell.toEnd, Option.bind_eq_bind, Option.bind_eq_some_iff] at htab
  obtain ⟨length, -, hnext⟩ := htab
  have hline : next.line = completed := by
    rw [← Option.some.inj hnext]
  have hposition : next.linePosition = length % 2 ^ 8 := by
    rw [← Option.some.inj hnext]
  have hbyte : next.linePosition < 2 ^ 8 := by
    rw [hposition]
    exact Nat.mod_lt _ (Nat.two_pow_pos 8)
  have hnonzero := hfollows.nonzero
  have hzeros := hfollows.zeros
  have hlt := hfollows.position_lt
  rw [hline] at hnonzero hzeros
  generalize next.linePosition = position at *
  have hfitting : Fitting cfg ((List.range position).map completed) := by
    refine ⟨fun hmem => ?_, ?_, ?_⟩
    · obtain ⟨slot, hslot, hzero⟩ := List.mem_map.1 hmem
      exact hnonzero slot (List.mem_range.1 hslot) hzero
    · rw [List.length_map, List.length_range]
      exact hlt
    · rw [List.length_map, List.length_range]
      exact hbyte
  have hpadded : Padded cfg.cmdSize completed ((List.range position).map completed) := by
    intro slot hslot
    by_cases hin : slot < position
    · rw [List.getElem?_eq_getElem (by simpa using hin)]
      simp
    · rw [List.getElem?_eq_none (by simpa using hin)]
      exact hzeros slot (by omega) hslot
  have htext := hpadded.textOf hfitting.zero_notMem hfitting.length_lt
  rw [← htext] at hfitting hpadded
  exact ⟨hfitting, hpadded⟩

/-- A key for which there is no room breaks the line at once. -/
theorem EditsSession.not_follows (hedits : EditsSession cfg shell session)
    (hroom : ¬ roomForKey cfg shell key) (hnext : shell.handleKey cfg key = some next)
    (after : Session) : ¬ FollowsSession cfg next after := by
  rw [roomForKey] at hroom
  cases hkey : shell.editKey key with
  | insert ch =>
    rw [hkey] at hroom
    obtain ⟨ch', hplain, hrun⟩ := @FinshShell.handleKey_of_plain cfg shell key
      (by rw [hkey]; nofun) (by rw [hkey]; simp)
    rw [hkey] at hplain
    obtain ⟨rfl, hch, hnormal⟩ := @plainKeyOf_eq_insert cfg
      { shell with stat := .waitNormal } key ch' ch hplain.symm
    rw [hrun, hnormal] at hnext
    rw [← Option.some.inj hnext]
    exact (hedits.withStat .waitNormal).line.not_follows_overflow hch hroom
  | complete =>
    rw [hkey] at hroom
    obtain ⟨ch, hplain, hrun⟩ := @FinshShell.handleKey_of_plain cfg shell key
      (by rw [hkey]; nofun) (by rw [hkey]; simp)
    rw [hkey] at hplain
    rw [hrun, plainKeyOf_eq_complete hplain.symm] at hnext
    intro hfollows
    have hhas := hasRoom_of_follows hnext hfollows
    exact hroom hhas
  | delete | enter | up | down | left | right | nothing =>
    rw [hkey] at hroom
    exact absurd trivial hroom

/-! ## Runs -/

/-- The shell follows the session exactly in the runs in which there is room for every key. -/
theorem editor_follows_keys (cfg : ShellConfig) {trace : List (KeyPress × Unit)}
    {last : FinshShell × Session}
    (hrun : (shellSession cfg).Run (finshShellInit, .start) trace last) :
    ((shellSession cfg).RunWith (fun state _ => FollowsSession cfg state.1 state.2)
        (finshShellInit, .start) trace last ∧ FollowsSession cfg last.1 last.2) ↔
      (shellSession cfg).RunWith (fun state key => roomForKey cfg state.1 key)
        (finshShellInit, .start) trace last := by
  refine Machine.RunWith.always_iff (fun state => EditsSession cfg state.1 state.2)
    (fun state => FollowsSession cfg state.1 state.2) (fun state hedits => hedits.follows)
    ?_ ?_ ?_ hrun
  · intro state key next event hedits hroom hstep
    obtain ⟨hnext, hsession⟩ := Machine.recorded_step.1 hstep
    obtain ⟨shell, hhandle, hshell⟩ := Option.map_eq_some_iff.1 hnext
    obtain ⟨shell', hhandle', hedits'⟩ := hedits.handleKey hroom
    rw [hsession, ← (Prod.mk.inj hshell).1, Option.some.inj (hhandle.symm.trans hhandle')]
    exact hedits'
  · intro state key next event hedits hroom hstep
    obtain ⟨hnext, -⟩ := Machine.recorded_step.1 hstep
    obtain ⟨shell, hhandle, hshell⟩ := Option.map_eq_some_iff.1 hnext
    rw [← (Prod.mk.inj hshell).1]
    exact hedits.not_follows hroom hhandle _
  · exact
      { stat_eq := rfl
        line := ⟨Fitting.nil, fun _ _ => rfl, rfl, rfl⟩
        history :=
          { fitting := fun _ hline => absurd hline List.not_mem_nil
            lines := by
              rw [Session.start, historyOf_nil]
              exact ⟨rfl, nofun⟩
            current_eq := rfl
            recalled_le := Nat.zero_le _ } }

def shellConfig80 : ShellConfig where
  cmdSize := 80
  historyLines := 5
  cmdSize_pos := by decide
  historyLines_pos := by decide
  historyLines_lt := by decide

-- Keys are decided by evaluation, one level of recursion for each.
set_option maxRecDepth 1024

def keyPresses (keys : List UInt8) : List KeyPress :=
  keys.map fun ch => ⟨some ch, fun _ => 0⟩

/-- Two lines, the upper one again with a letter put into it, and the end of that line. -/
def shellKeys : List KeyPress :=
  keyPresses [0x6c, 0x73, 0x0d, 0x70, 0x73, 0x0a, 0x1b, 0x5b, 0x41, 0x1b, 0x5b, 0x41, 0x1b, 0x5b,
    0x44, 0x61, 0x7f, 0x62, 0x0d, 0x1b, 0x5b, 0x42]

theorem isSome_shellKeys : ((shellSession shellConfig80).exec
    (fun st key => roomForKey shellConfig80 st.1 key) (finshShellInit, .start)
      shellKeys).isSome = true := by
  decide

theorem editor_follows_keys_session : ∃ trace last,
    (shellSession shellConfig80).Run (finshShellInit, .start) trace last ∧
    FollowsSession shellConfig80 last.1 last.2 ∧
    historyOf shellConfig80 last.2.entered = [[0x6c, 0x73], [0x70, 0x73], [0x6c, 0x62, 0x73]] :=
  have hrun := Machine.runWith_of_isSome shellKeys isSome_shellKeys
  ⟨_, _, hrun.run, ((editor_follows_keys shellConfig80 hrun.run).2 hrun).2, by decide⟩

/-- A line of as many characters as the buffer has bytes. -/
def overlongKeys : List KeyPress :=
  keyPresses (List.replicate 80 0x61)

theorem isSome_overlongKeys : ((shellSession shellConfig80).exec (fun _ _ => True)
    (finshShellInit, .start) overlongKeys).isSome = true := by
  decide

theorem overlong_line_stays : ∃ trace last,
    (shellSession shellConfig80).Run (finshShellInit, .start) trace last ∧
    ¬ FollowsSession shellConfig80 last.1 last.2 :=
  ⟨_, _, Machine.runWith_of_isSome overlongKeys isSome_overlongKeys, fun hfollows => by
    have hzero := hfollows.zeros 0 (by decide) (by decide)
    revert hzero
    decide⟩

end RtThread.Finsh
