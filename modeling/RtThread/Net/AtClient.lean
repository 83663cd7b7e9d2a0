import RtThread.Core.Recorder
import RtThread.Drivers.Ringbuffer

set_option linter.all false

/-!
# The AT client

`at_client.c`: threads send commands with `at_obj_exec_cmd` and wait for the notice of the
parser thread, which copies the lines it receives into the response object of the command
and gives the notice at the terminating line.  The lock of the client is held by the
command alone; the parser runs beside it.
-/

namespace RtThread.AtClient

open RtThread.Core
open RtThread.Ringbuffer (copyIn copyOut)

inductive RespStatus
  | ok | error | timeout | buffFull
  deriving DecidableEq

/-- `struct at_response`. -/
structure AtResponse where
  buf : ℕ → UInt8
  bufSize : ℕ
  bufLen : ℕ
  lineNum : ℕ
  lineCounts : ℕ
  timeout : ℤ

def atRespEndOk : List UInt8 := [0x4f, 0x4b]

def atRespEndError : List UInt8 := [0x45, 0x52, 0x52, 0x4f, 0x52]

def atRespEndFail : List UInt8 := [0x46, 0x41, 0x49, 0x4c]

/-- What does not change while a client runs. -/
structure Config where
  recvBufsz : ℕ
  /-- `get_urc_obj` finds an entry for the line. -/
  isUrc : List UInt8 → Bool

/-- `recv_line_buf` once its last character is overwritten. -/
def terminated (line : List UInt8) : List UInt8 :=
  line.dropLast ++ [0]

/-- Check response result: the status the line ends the response with. -/
def checkResult (resp : AtResponse) (line : List UInt8) : Option RespStatus :=
  if atRespEndOk <+: terminated line ∧ resp.lineNum = 0 then some .ok
  else if atRespEndError <:+: (terminated line).takeWhile (· ≠ 0) ∨
      atRespEndFail <+: terminated line then some .error
  else if resp.lineCounts = resp.lineNum ∧ resp.lineNum ≠ 0 then some .ok
  else none

inductive Result
  | eok | etimeout | error
  deriving DecidableEq

/-- Where a thread is in `at_obj_exec_cmd`. -/
inductive CmdPc (Resp : Type*)
  | idle
  | locking (resp : Option Resp)
  | status (resp : Option Resp)
  | install (resp : Option Resp)
  | resetLen (resp : Resp)
  | resetCounts (resp : Resp)
  | sending (resp : Option Resp)
  | taking (resp : Resp)
  | waiting (resp : Resp)
  | expired (resp : Resp)
  | judging (resp : Resp)
  | clearing (resp : Option Resp) (result : Result)
  | unlocking (resp : Option Resp) (result : Result)
  deriving DecidableEq

/-- Where the thread of `client_parser` is. -/
inductive ParserPc (Resp : Type*)
  | reading
  /-- It has found that `client->resp` is not `RT_NULL`. -/
  | tested (line : List UInt8)
  | taken (resp : Resp) (line : List UInt8)
  | copying (resp : Resp) (line : List UInt8)
  | lengthening (resp : Resp) (line : List UInt8)
  | counting (resp : Resp) (line : List UInt8)
  | full (resp : Resp) (line : List UInt8)
  | checking (resp : Resp) (line : List UInt8)
  | finishing
  | releasing
  /-- It has taken `RT_NULL` for the response object. -/
  | lost
  deriving DecidableEq

structure State (Tid Resp : Type*) where
  lock : Option Tid
  resp : Option Resp
  respStatus : RespStatus
  /-- The value of `resp_notice`, and the threads that wait for it. -/
  notice : ℕ
  suspended : List Tid
  responses : Resp → AtResponse
  pcs : Tid → CmdPc Resp
  parser : ParserPc Resp

inductive Action (Tid Resp : Type*)
  | call (tid : Tid) (resp : Option Resp)
  /-- The next statement of a command. -/
  | run (tid : Tid)
  /-- The time of a waiting command is over. -/
  | expire (tid : Tid)
  /-- The parser reads a line and looks whether it is to go on. -/
  | receive (line : List UInt8)
  /-- The next statement of the parser. -/
  | parse

section Machine

variable {Tid Resp : Type*} [DecidableEq Tid] [DecidableEq Resp]

namespace State

variable (st : State Tid Resp)

def setPc (tid : Tid) (pc : CmdPc Resp) : State Tid Resp :=
  { st with pcs := Function.update st.pcs tid pc }

def setResponse (resp : Resp) (response : AtResponse) : State Tid Resp :=
  { st with responses := Function.update st.responses resp response }

/-- `rt_sem_take(client->resp_notice, resp->timeout)`, up to its return or its wait. -/
def takeNotice (tid : Tid) (resp : Resp) : State Tid Resp :=
  if 0 < st.notice then
    { st with notice := st.notice - 1 }.setPc tid (.judging resp)
  else if (st.responses resp).timeout = 0 then st.setPc tid (.expired resp)
  else { st with suspended := st.suspended ++ [tid] }.setPc tid (.waiting resp)

/-- `rt_sem_release(client->resp_notice)`. -/
def releaseNotice : State Tid Resp :=
  match st.suspended with
  | tid :: rest =>
    match st.pcs tid with
    | .waiting resp => { st with suspended := rest }.setPc tid (.judging resp)
    | _ => { st with suspended := rest }
  | [] => { st with notice := (st.notice + 1) % 0x10000 }

/-- The next statement of `at_obj_exec_cmd`. -/
def execCmd (tid : Tid) : Option (State Tid Resp) :=
  match st.pcs tid with
  | .idle => none
  | .locking resp =>
    if st.lock = none then some ({ st with lock := some tid }.setPc tid (.status resp))
    else none
  | .status resp => some ({ st with respStatus := .ok }.setPc tid (.install resp))
  | .install none => some ({ st with resp := none }.setPc tid (.sending none))
  | .install (some resp) => some ({ st with resp := some resp }.setPc tid (.resetLen resp))
  | .resetLen resp =>
    some ((st.setResponse resp { st.responses resp with bufLen := 0 }).setPc tid
      (.resetCounts resp))
  | .resetCounts resp =>
    some ((st.setResponse resp { st.responses resp with lineCounts := 0 }).setPc tid
      (.sending (some resp)))
  | .sending none => some (st.setPc tid (.clearing none .eok))
  | .sending (some resp) => some (st.setPc tid (.taking resp))
  | .taking resp => some (st.takeNotice tid resp)
  | .waiting _ => none
  | .expired resp =>
    some ({ st with respStatus := .timeout }.setPc tid (.clearing (some resp) .etimeout))
  | .judging resp =>
    some (st.setPc tid (.clearing (some resp)
      (if st.respStatus = .ok then .eok else .error)))
  | .clearing resp result => some ({ st with resp := none }.setPc tid (.unlocking resp result))
  | .unlocking _ _ => some ({ st with lock := none }.setPc tid .idle)

/-- The next statement of `client_parser`, once a line is read. -/
def clientParser : Option (State Tid Resp) :=
  match st.parser with
  | .reading => none
  | .tested line =>
    match st.resp with
    | some resp => some { st with parser := .taken resp line }
    | none => some { st with parser := .lost }
  | .taken resp line =>
    if (st.responses resp).bufLen + line.length < (st.responses resp).bufSize then
      some { st with parser := .copying resp line }
    else some { st with parser := .full resp line }
  | .copying resp line =>
    let response := st.responses resp
    some { st.setResponse resp
        { response with buf := copyIn response.buf response.bufLen (terminated line) } with
      parser := .lengthening resp line }
  | .lengthening resp line =>
    let response := st.responses resp
    some { st.setResponse resp { response with bufLen := response.bufLen + line.length } with
      parser := .counting resp line }
  | .counting resp line =>
    let response := st.responses resp
    some { st.setResponse resp { response with lineCounts := response.lineCounts + 1 } with
      parser := .checking resp line }
  | .full resp line =>
    some { st with respStatus := .buffFull, parser := .checking resp line }
  | .checking resp line =>
    match checkResult (st.responses resp) line with
    | some status => some { st with respStatus := status, parser := .finishing }
    | none => some { st with parser := .reading }
  | .finishing => some { st with resp := none, parser := .releasing }
  | .releasing => some { st.releaseNotice with parser := .reading }
  | .lost => none

/-- A line that `at_recv_readline` returns; a longer one than its buffer, a request and a line
nobody waits for are left. -/
def readLine (cfg : Config) (line : List UInt8) : Option (State Tid Resp) :=
  if st.parser = .reading ∧ line ≠ [] then
    if cfg.recvBufsz < line.length ∨ cfg.isUrc line = true ∨ st.resp = none then some st
    else some { st with parser := .tested line }
  else none

end State

def step (cfg : Config) (st : State Tid Resp) :
    Action Tid Resp → Option (State Tid Resp × Unit)
  | .call tid resp =>
    if st.pcs tid = .idle then some (st.setPc tid (.locking resp), ()) else none
  | .run tid => (st.execCmd tid).map (·, ())
  | .expire tid =>
    match st.pcs tid with
    | .waiting resp =>
      if 0 < (st.responses resp).timeout then
        some ({ st with suspended := st.suspended.erase tid }.setPc tid (.expired resp),
          ())
      else none
    | _ => none
  | .receive line => (st.readLine cfg line).map (·, ())
  | .parse => st.clientParser.map (·, ())

def machine (cfg : Config) : Machine (State Tid Resp) (Action Tid Resp) Unit where
  step := step cfg

/-- A client after `at_client_init`. -/
def initial (responses : Resp → AtResponse) : State Tid Resp where
  lock := none
  resp := none
  respStatus := .ok
  notice := 0
  suspended := []
  responses := responses
  pcs _ := .idle
  parser := .reading

end Machine

end RtThread.AtClient
