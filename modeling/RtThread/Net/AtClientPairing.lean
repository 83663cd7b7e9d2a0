import RtThread.Net.AtClient

set_option linter.all false

/-!
# Commands and their responses

The parser gives its notice without the lock of the client, and a command that has waited
for its time returns without asking what the parser is doing.  A command that returns
`RT_EOK` has got its own response as long as no command returns while the parser has a line
of it in hand or a notice is left, no line that was taken up before a command was sent
terminates its response, and no line is dropped.
-/

namespace RtThread.AtClient

open Function
open RtThread.Core
open RtThread.Ringbuffer (copyIn copyOut copyIn_of_lt copyOut_add copyOut_copyIn)

variable {Tid Resp : Type*} [DecidableEq Tid] [DecidableEq Resp]

/-- What has happened for the command that holds the lock. -/
structure Notes where
  sent : Bool
  /-- The parser has taken up its line after the command was sent. -/
  own : Bool
  /-- The lines received since the command was sent, while its response object was installed. -/
  lines : List (List UInt8)
  /-- One of these lines has terminated the response. -/
  finished : Bool
  /-- The command the parser took up its line for has returned. -/
  orphaned : Bool

def Notes.init : Notes := ⟨false, false, [], false, false⟩

def record (cfg : Config) (notes : Notes) (st : State Tid Resp) :
    Action Tid Resp → State Tid Resp → Unit → Notes
  | .run tid, _, _ =>
    match st.pcs tid with
    | .sending _ => { notes with sent := true }
    | .unlocking _ _ => ⟨false, false, [], false, true⟩
    | _ => notes
  | .receive line, _, _ =>
    if st.resp = none ∨ cfg.isUrc line = true then notes
    else
      { notes with
        own := notes.sent
        lines := if notes.sent = true then notes.lines ++ [line] else notes.lines
        orphaned := false }
  | .parse, _, _ =>
    match st.parser with
    | .checking resp line =>
      if (checkResult (st.responses resp) line).isSome = true ∧ notes.own = true then
        { notes with finished := true }
      else notes
    | _ => notes
  | _, _, _ => notes

/-- The text of some lines, as the parser stores them. -/
def text (lines : List (List UInt8)) : List UInt8 :=
  (lines.map terminated).flatten

/-- The buffer ends with some lines. -/
def EndsWith (response : AtResponse) (lines : List (List UInt8)) : Prop :=
  text lines <:+ copyOut response.buf 0 response.bufLen

/-- The parser is about to write to a response object. -/
def ParserPc.writes : ParserPc Resp → Bool
  | .copying _ _ | .lengthening _ _ | .counting _ _ => true
  | _ => false

/-- A command that returns `RT_EOK` has been answered, its buffer holds the lines received since
it was sent, and the parser writes to no response object whose command has returned. -/
structure Paired (st : State Tid Resp × Notes) : Prop where
  answered : ∀ tid resp, st.1.pcs tid = .unlocking (some resp) .eok →
    st.2.finished = true ∧ EndsWith (st.1.responses resp) st.2.lines
  kept_off : st.1.parser.writes = true → st.2.orphaned = false

/-- The parser has no line in hand, or only its end to check. -/
def ParserPc.calm : ParserPc Resp → Bool
  | .reading | .checking _ _ => true
  | _ => false

/-- A command returns when the parser is done with its lines and no notice is left; a line that
terminates a response was taken up after the command was sent, and does not hide that the buffer
was full; a line of a response is not too long to be read. -/
def Timely (cfg : Config) (st : State Tid Resp × Notes) : Action Tid Resp → Prop
  | .run tid =>
    match st.1.pcs tid with
    | .unlocking _ _ => st.1.notice = 0 ∧ st.1.parser.calm = true
    | _ => True
  | .receive line =>
    st.1.resp ≠ none → st.2.sent = true → cfg.isUrc line = false →
      line.length ≤ cfg.recvBufsz
  | .parse =>
    match st.1.parser with
    | .checking resp line =>
      match checkResult (st.1.responses resp) line with
      | some .ok => st.2.own = true ∧ st.1.respStatus ≠ .buffFull
      | some _ => st.2.own = true
      | none => True
    | _ => True
  | _ => True

/-! ## The buffer of a response -/

section Buffer

variable {response : AtResponse} {line : List UInt8} {lines : List (List UInt8)}

theorem length_terminated (hline : line ≠ []) : (terminated line).length = line.length := by
  have hpos := List.length_pos_of_ne_nil hline
  rw [terminated, List.length_append, List.length_dropLast, List.length_singleton]
  omega

theorem text_append (lines : List (List UInt8)) (line : List UInt8) :
    text (lines ++ [line]) = text lines ++ terminated line := by
  simp [text]

theorem endsWith_nil : EndsWith response [] :=
  List.nil_suffix

/-- The line in front of the end of the buffer, before its length is added. -/
def Copied (response : AtResponse) (line : List UInt8) : Prop :=
  copyOut response.buf response.bufLen line.length = terminated line

theorem copied_copyIn (hline : line ≠ []) :
    Copied { response with buf := copyIn response.buf response.bufLen (terminated line) } line := by
  rw [Copied, ← length_terminated hline]
  exact copyOut_copyIn ..

theorem endsWith_copyIn (hends : EndsWith response lines) :
    EndsWith { response with buf := copyIn response.buf response.bufLen (terminated line) }
      lines := by
  have hsame : copyOut (copyIn response.buf response.bufLen (terminated line)) 0 response.bufLen =
      copyOut response.buf 0 response.bufLen := by
    apply List.map_congr_left
    intro index hindex
    rw [List.mem_range] at hindex
    exact copyIn_of_lt (by omega)
  rw [EndsWith, hsame]
  exact hends

theorem endsWith_lengthen (hends : EndsWith response lines) (hcopied : Copied response line) :
    EndsWith { response with bufLen := response.bufLen + line.length } (lines ++ [line]) := by
  have hcopied' : copyOut response.buf (0 + response.bufLen) line.length = terminated line := by
    rw [Nat.zero_add]
    exact hcopied
  rw [EndsWith, copyOut_add, hcopied', text_append]
  exact List.suffix_append_self_iff.2 hends

end Buffer

/-! ## What a command and the parser have done so far -/

variable {cfg : Config} {st next : State Tid Resp} {notes : Notes} {tid : Tid} {resp : Resp}
variable {line : List UInt8}

/-- The line the parser has in hand. -/
def ParserPc.inHand : ParserPc Resp → Option (List UInt8)
  | .tested line | .taken _ line | .copying _ line | .lengthening _ line | .counting _ line
  | .full _ line | .checking _ line => some line
  | _ => none

/-- What holds whatever the command is doing. -/
structure Facts (st : State Tid Resp) (notes : Notes) : Prop where
  unsent : notes.sent = false → notes.lines = [] ∧ notes.own = false
  stray : notes.own = false → st.parser ≠ .reading → notes.lines = []
  own_kept : notes.own = true → notes.orphaned = false
  kept : st.parser.calm = false → notes.orphaned = false
  line_ne : ∀ line, st.parser.inHand = some line → line ≠ []

/-- The response object is not installed and the parser takes up no line. -/
structure Quiet (st : State Tid Resp) (notes : Notes) : Prop where
  cleared : st.resp = none
  notice : st.notice = 0
  suspended : st.suspended = []
  calm : st.parser.calm = true
  own : notes.own = false

/-- The parser handles a line for a response object, and has not found its end. -/
def ParserPc.handles (resp : Resp) : ParserPc Resp → Prop
  | .taken other _ | .copying other _ | .lengthening other _ | .counting other _
  | .full other _ => other = resp
  | .finishing | .releasing | .lost => False
  | _ => True

/-- The response object is installed and the command is not sent. -/
structure Early (st : State Tid Resp) (notes : Notes) (resp : Resp) : Prop where
  installed : st.resp = some resp
  notice : st.notice = 0
  suspended : st.suspended = []
  sent : notes.sent = false
  status : st.respStatus = .ok ∨ st.respStatus = .buffFull
  handles : st.parser.handles resp

/-- Unless the buffer was full it ends with these lines. -/
def Filled (st : State Tid Resp) (resp : Resp) (lines : List (List UInt8)) : Prop :=
  st.respStatus = .ok → EndsWith (st.responses resp) lines

/-- The line is the last one received, if it was received after the command was sent, and is not
in the buffer. -/
def Pending (st : State Tid Resp) (notes : Notes) (resp : Resp) (line : List UInt8) : Prop :=
  ∃ past, notes.lines = past ++ (if notes.own = true then [line] else []) ∧
    Filled st resp past

/-- How far the parser is with the response of a command that is sent. -/
def Response (st : State Tid Resp) (notes : Notes) (resp : Resp) : ParserPc Resp → Prop
  | .reading | .checking _ _ => Filled st resp notes.lines
  | .tested line => Pending st notes resp line
  | .taken other line | .copying other line => other = resp ∧ Pending st notes resp line
  | .lengthening other line =>
    other = resp ∧ Pending st notes resp line ∧
      (notes.own = true → Copied (st.responses resp) line)
  | .counting other _ => other = resp ∧ Filled st resp notes.lines
  | .full other _ => other = resp
  | .finishing | .releasing => notes.finished = true ∧ Filled st resp notes.lines
  | .lost => False

/-- The parser has found the end of the response. -/
def ParserPc.ends : ParserPc Resp → Bool
  | .finishing | .releasing => true
  | _ => false

/-- The command is sent and its notice is not given. -/
structure Open (st : State Tid Resp) (notes : Notes) (resp : Resp) : Prop where
  sent : notes.sent = true
  notice : st.notice = 0
  installed : st.parser ≠ .releasing → st.resp = some resp
  cleared : st.parser = .releasing → st.resp = none
  status : st.parser.ends = false → st.respStatus = .ok ∨ st.respStatus = .buffFull
  response : Response st notes resp st.parser

/-- The notice of the command was given. -/
structure Done (st : State Tid Resp) (notes : Notes) (resp : Resp) : Prop where
  cleared : st.resp = none
  parser : st.parser = .reading
  finished : notes.finished = true
  filled : Filled st resp notes.lines

/-- What the command that holds the lock has reached. -/
def Phase (st : State Tid Resp) (notes : Notes) (tid : Tid) : CmdPc Resp → Prop
  | .idle | .locking _ => True
  | .status _ => Quiet st notes ∧ notes.sent = false
  | .install _ => Quiet st notes ∧ notes.sent = false ∧ st.respStatus = .ok
  | .resetLen resp | .resetCounts resp | .sending (some resp) => Early st notes resp
  | .sending none | .clearing none _ | .unlocking none _ => Quiet st notes
  | .taking resp =>
    st.suspended = [] ∧ (Open st notes resp ∨ Done st notes resp ∧ st.notice = 1)
  | .waiting resp => st.suspended = [tid] ∧ Open st notes resp
  | .judging resp => st.suspended = [] ∧ Done st notes resp ∧ st.notice = 0
  | .expired _ => st.suspended = []
  | .clearing (some resp) result =>
    st.suspended = [] ∧ (result ≠ .etimeout → Done st notes resp ∧ st.notice = 0 ∧
      (result = .eok → st.respStatus = .ok))
  | .unlocking (some resp) result =>
    st.suspended = [] ∧ st.resp = none ∧
      (result ≠ .etimeout → Done st notes resp ∧ st.notice = 0 ∧
        (result = .eok → st.respStatus = .ok))

/-- The thread is between taking and releasing the lock. -/
def CmdPc.inside : CmdPc Resp → Bool
  | .idle | .locking _ => false
  | _ => true

structure Inv (st : State Tid Resp) (notes : Notes) : Prop where
  facts : Facts st notes
  holder : ∀ tid, (st.pcs tid).inside = true → st.lock = some tid
  free : st.lock = none → Quiet st notes ∧ notes.sent = false
  phase : ∀ tid, st.lock = some tid →
    (st.pcs tid).inside = true ∧ Phase st notes tid (st.pcs tid)

omit [DecidableEq Tid] [DecidableEq Resp] in
theorem Inv.paired (hinv : Inv st notes) : Paired (st, notes) where
  answered tid resp hpc := by
    have hphase := hinv.phase tid (hinv.holder tid (by rw [hpc]; rfl))
    rw [hpc] at hphase
    obtain ⟨-, -, -, hdone⟩ := hphase
    obtain ⟨hdone, -, hstatus⟩ := hdone (by decide)
    exact ⟨hdone.finished, hdone.filled (hstatus rfl)⟩
  kept_off hwrites := by
    refine hinv.facts.kept ?_
    change st.parser.writes = true at hwrites
    cases hparser : st.parser <;> rw [hparser] at hwrites <;> first | rfl | cases hwrites

omit [DecidableEq Tid] [DecidableEq Resp] in
theorem inv_init (responses : Resp → AtResponse) :
    Inv (initial responses : State Tid Resp) Notes.init where
  facts :=
    { unsent := fun _ => ⟨rfl, rfl⟩
      stray := fun _ hreading => absurd rfl hreading
      own_kept := fun _ => rfl
      kept := fun _ => rfl
      line_ne := fun _ hline => by cases hline }
  holder _ hinside := by cases hinside
  free _ := ⟨⟨rfl, rfl, rfl, rfl, rfl⟩, rfl⟩
  phase _ hlock := by cases hlock

/-! ## The steps of the parser -/

theorem clientParser_ne_reading (hstep : st.clientParser = some next) :
    st.parser ≠ .reading := by
  intro hparser
  rw [State.clientParser, hparser] at hstep
  cases hstep

theorem clientParser_frame (hstep : st.clientParser = some next)
    (hquiet : st.parser ≠ .releasing) :
    next.lock = st.lock ∧ next.pcs = st.pcs ∧ next.suspended = st.suspended ∧
      next.notice = st.notice := by
  cases hparser : st.parser <;> rw [State.clientParser, hparser] at hstep
  case releasing => exact absurd hparser hquiet
  case reading | lost => cases hstep
  case tested | taken | checking =>
    dsimp only at hstep
    split at hstep <;> obtain rfl := Option.some.inj hstep <;> exact ⟨rfl, rfl, rfl, rfl⟩
  case copying | lengthening | counting | full | finishing =>
    cases hstep
    exact ⟨rfl, rfl, rfl, rfl⟩

theorem clientParser_releasing (hparser : st.parser = .releasing) :
    st.clientParser = some { st.releaseNotice with parser := .reading } := by
  rw [State.clientParser, hparser]

omit [DecidableEq Resp] in
theorem releaseNotice_nil (hnil : st.suspended = []) :
    st.releaseNotice = { st with notice := (st.notice + 1) % 0x10000 } := by
  rw [State.releaseNotice, hnil]

omit [DecidableEq Resp] in
theorem releaseNotice_waiting (hsuspended : st.suspended = [tid])
    (hpc : st.pcs tid = .waiting resp) :
    st.releaseNotice = { st with suspended := [] }.setPc tid (.judging resp) := by
  simp only [State.releaseNotice, hsuspended, hpc]

/-- The parser keeps its line until it is done with it, and finds the end only in a line that was
taken up after the command was sent. -/
theorem clientParser_facts (hstep : st.clientParser = some next)
    (htimely : Timely cfg (st, notes) .parse) (hfacts : Facts st notes) :
    Facts next notes := by
  have hbusy := clientParser_ne_reading hstep
  refine ⟨hfacts.unsent, fun hown _ => hfacts.stray hown hbusy, hfacts.own_kept, ?_, ?_⟩
  · intro hcalm
    cases hparser : st.parser <;> rw [State.clientParser, hparser] at hstep
    case reading | lost => cases hstep
    case tested | taken | copying | lengthening | counting | full | finishing =>
      exact hfacts.kept (by rw [hparser]; rfl)
    case releasing =>
      cases hstep
      cases hcalm
    case checking other line =>
      dsimp only at hstep
      have hown : (checkResult (st.responses other) line).isSome = true → notes.own = true := by
        intro hsome
        simp only [Timely, hparser] at htimely
        split at htimely
        · exact htimely.1
        · exact htimely
        · next hnone =>
          rw [hnone] at hsome
          cases hsome
      split at hstep
      · next hresult =>
        exact hfacts.own_kept (hown (by rw [hresult]; rfl))
      · cases hstep
        cases hcalm
  · intro line hline
    refine hfacts.line_ne line ?_
    cases hparser : st.parser <;> rw [State.clientParser, hparser] at hstep
    case reading | lost => cases hstep
    case copying | lengthening | counting | full | finishing | releasing =>
      cases hstep
      exact hline
    case tested | taken | checking =>
      dsimp only at hstep
      split at hstep <;> obtain rfl := Option.some.inj hstep <;> first | exact hline | cases hline

omit [DecidableEq Tid] [DecidableEq Resp] in
theorem record_parse_of_ne (hne : ∀ other line, st.parser ≠ .checking other line) :
    record cfg notes st .parse next () = notes := by
  rw [record]
  split
  · next other line hparser => exact absurd hparser (hne other line)
  · rfl

/-- The end of a line that is not the last one of the response. -/
theorem Quiet.parse (hquiet : Quiet st notes) (hstep : st.clientParser = some next)
    (htimely : Timely cfg (st, notes) .parse) :
    next = { st with parser := .reading } ∧
      record cfg notes st .parse next () = notes := by
  have hcalm := hquiet.calm
  cases hparser : st.parser <;> rw [hparser] at hcalm
  case reading => exact absurd hparser (clientParser_ne_reading hstep)
  case checking other line =>
    have hnone : checkResult (st.responses other) line = none := by
      simp only [Timely, hparser, hquiet.own] at htimely
      split at htimely
      · exact absurd htimely.1 Bool.false_ne_true
      · cases htimely
      · assumption
    simp only [State.clientParser, hparser, hnone] at hstep
    refine ⟨(Option.some.inj hstep).symm, ?_⟩
    simp only [record, hparser, hnone]
    rfl
  all_goals cases hcalm

omit [DecidableEq Tid] [DecidableEq Resp] in
theorem Quiet.after (hquiet : Quiet st notes) :
    Quiet { st with parser := .reading } notes :=
  ⟨hquiet.cleared, hquiet.notice, hquiet.suspended, rfl, hquiet.own⟩

theorem Early.parse (hearly : Early st notes resp) (hfacts : Facts st notes)
    (hstep : st.clientParser = some next) (htimely : Timely cfg (st, notes) .parse) :
    Early next notes resp ∧ record cfg notes st .parse next () = notes := by
  obtain ⟨hinstalled, hnotice, hsuspended, hsent, hstatus, hhandles⟩ := hearly
  have hown := (hfacts.unsent hsent).2
  cases hparser : st.parser <;> rw [hparser] at hhandles
  case reading => exact absurd hparser (clientParser_ne_reading hstep)
  case finishing | releasing | lost => exact absurd hhandles id
  case checking other line =>
    have hnone : checkResult (st.responses other) line = none := by
      simp only [Timely, hparser, hown] at htimely
      split at htimely
      · exact absurd htimely.1 Bool.false_ne_true
      · cases htimely
      · assumption
    simp only [State.clientParser, hparser, hnone] at hstep
    cases hstep
    refine ⟨⟨hinstalled, hnotice, hsuspended, hsent, hstatus, trivial⟩, ?_⟩
    simp only [record, hparser, hnone]
    rfl
  case tested line =>
    refine ⟨?_, record_parse_of_ne fun other line => by rw [hparser]; exact nofun⟩
    simp only [State.clientParser, hparser, hinstalled] at hstep
    cases hstep
    exact ⟨rfl, hnotice, hsuspended, hsent, hstatus, rfl⟩
  case taken other line =>
    refine ⟨?_, record_parse_of_ne fun other line => by rw [hparser]; exact nofun⟩
    simp only [State.clientParser, hparser] at hstep
    split at hstep <;> obtain rfl := Option.some.inj hstep <;>
      exact ⟨hinstalled, hnotice, hsuspended, hsent, hstatus, hhandles⟩
  case copying | lengthening =>
    refine ⟨?_, record_parse_of_ne fun other line => by rw [hparser]; exact nofun⟩
    simp only [State.clientParser, hparser] at hstep
    cases hstep
    exact ⟨hinstalled, hnotice, hsuspended, hsent, hstatus, hhandles⟩
  case counting =>
    refine ⟨?_, record_parse_of_ne fun other line => by rw [hparser]; exact nofun⟩
    simp only [State.clientParser, hparser] at hstep
    cases hstep
    exact ⟨hinstalled, hnotice, hsuspended, hsent, hstatus, trivial⟩
  case full =>
    refine ⟨?_, record_parse_of_ne fun other line => by rw [hparser]; exact nofun⟩
    simp only [State.clientParser, hparser] at hstep
    cases hstep
    exact ⟨hinstalled, hnotice, hsuspended, hsent, Or.inr rfl, trivial⟩

omit [DecidableEq Tid] [DecidableEq Resp] in
/-- The buffer of a response whose lines are stored, when only other parts of the state change. -/
theorem Filled.mono {lines : List (List UInt8)} (hfilled : Filled st resp lines)
    (hresponse : next.responses resp = st.responses resp)
    (hstatus : next.respStatus = st.respStatus) : Filled next resp lines := by
  intro hok
  rw [hresponse]
  exact hfilled (hstatus.symm.trans hok)

omit [DecidableEq Tid] [DecidableEq Resp] in
/-- A line that is stored before the command was sent is not one of its lines. -/
theorem Pending.stored (hpending : Pending st notes resp line) (hfacts : Facts st notes)
    (hbusy : st.parser ≠ .reading)
    (hown : notes.own = true → st.respStatus = .ok → ∀ past,
      EndsWith (st.responses resp) past → EndsWith (next.responses resp) (past ++ [line]))
    (hstatus : next.respStatus = st.respStatus) : Filled next resp notes.lines := by
  intro hok
  rw [hstatus] at hok
  obtain ⟨past, hlines, hpast⟩ := hpending
  cases howner : notes.own with
  | false =>
    rw [hfacts.stray howner hbusy]
    exact endsWith_nil
  | true =>
    rw [howner, if_pos rfl] at hlines
    rw [hlines]
    exact hown howner hok past (hpast hok)

theorem Open.parse (hopen : Open st notes resp) (hfacts : Facts st notes)
    (hstep : st.clientParser = some next) (htimely : Timely cfg (st, notes) .parse)
    (hbusy : st.parser ≠ .releasing) :
    Open next (record cfg notes st .parse next ()) resp := by
  obtain ⟨hsent, hnotice, hinstalled, hcleared, hstatus, hresponse⟩ := hopen
  have hinstalled := hinstalled hbusy
  cases hparser : st.parser <;> rw [hparser] at hresponse hstatus
  case reading => exact absurd hparser (clientParser_ne_reading hstep)
  case releasing => exact absurd hparser hbusy
  case lost => exact absurd hresponse id
  case tested line =>
    rw [record_parse_of_ne fun other line => by rw [hparser]; exact nofun]
    simp only [State.clientParser, hparser, hinstalled] at hstep
    cases hstep
    exact ⟨hsent, hnotice, fun _ => rfl, nofun, fun _ => hstatus rfl, rfl, hresponse⟩
  case taken other line =>
    rw [record_parse_of_ne fun other line => by rw [hparser]; exact nofun]
    obtain ⟨rfl, hpending⟩ := hresponse
    simp only [State.clientParser, hparser] at hstep
    split at hstep
    · cases hstep
      exact ⟨hsent, hnotice, fun _ => hinstalled, nofun, fun _ => hstatus rfl, rfl, hpending⟩
    · cases hstep
      exact ⟨hsent, hnotice, fun _ => hinstalled, nofun, fun _ => hstatus rfl, rfl⟩
  case copying other line =>
    rw [record_parse_of_ne fun other line => by rw [hparser]; exact nofun]
    obtain ⟨rfl, past, hlines, hpast⟩ := hresponse
    have hline := hfacts.line_ne line (by rw [hparser]; rfl)
    simp only [State.clientParser, hparser] at hstep
    cases hstep
    refine ⟨hsent, hnotice, fun _ => hinstalled, nofun, fun _ => hstatus rfl, rfl,
      ⟨past, hlines, fun hok => ?_⟩, fun _ => ?_⟩
    · simp only [State.setResponse, update_self]
      exact endsWith_copyIn (hpast hok)
    · simp only [State.setResponse, update_self]
      exact copied_copyIn hline
  case lengthening other line =>
    rw [record_parse_of_ne fun other line => by rw [hparser]; exact nofun]
    obtain ⟨rfl, hpending, hcopied⟩ := hresponse
    simp only [State.clientParser, hparser] at hstep
    cases hstep
    refine ⟨hsent, hnotice, fun _ => hinstalled, nofun, fun _ => hstatus rfl, rfl, ?_⟩
    refine hpending.stored hfacts (by rw [hparser]; exact nofun) (fun hown _ past hends => ?_) rfl
    simp only [State.setResponse, update_self]
    exact endsWith_lengthen hends (hcopied hown)
  case counting other line =>
    rw [record_parse_of_ne fun other line => by rw [hparser]; exact nofun]
    obtain ⟨rfl, hfilled⟩ := hresponse
    simp only [State.clientParser, hparser] at hstep
    cases hstep
    refine ⟨hsent, hnotice, fun _ => hinstalled, nofun, fun _ => hstatus rfl, fun hok => ?_⟩
    simp only [State.setResponse, update_self]
    exact hfilled hok
  case full other line =>
    rw [record_parse_of_ne fun other line => by rw [hparser]; exact nofun]
    simp only [State.clientParser, hparser] at hstep
    cases hstep
    exact ⟨hsent, hnotice, fun _ => hinstalled, nofun, fun _ => Or.inr rfl, nofun⟩
  case finishing =>
    rw [record_parse_of_ne fun other line => by rw [hparser]; exact nofun]
    simp only [State.clientParser, hparser] at hstep
    cases hstep
    exact ⟨hsent, hnotice, fun hne => absurd rfl hne, fun _ => rfl, nofun, hresponse⟩
  case checking other line =>
    simp only [State.clientParser, hparser] at hstep
    simp only [Timely, hparser] at htimely
    simp only [record, hparser]
    split at hstep
    · next status hresult =>
      cases hstep
      simp only [hresult] at htimely
      have hown : notes.own = true := by
        cases status with
        | ok => exact htimely.1
        | error | timeout | buffFull => exact htimely
      simp only [hresult, hown]
      refine ⟨hsent, hnotice, fun _ => hinstalled, nofun, nofun, rfl, fun hok => ?_⟩
      change status = .ok at hok
      rw [hok] at htimely
      exact hresponse ((hstatus rfl).resolve_right htimely.2)
    · next hresult =>
      cases hstep
      simp only [hresult]
      exact ⟨hsent, hnotice, fun _ => hinstalled, nofun, fun _ => hstatus rfl, hresponse⟩

omit [DecidableEq Tid] [DecidableEq Resp] in
theorem Open.released (hopen : Open st notes resp) (hparser : st.parser = .releasing)
    (hnext : next.resp = st.resp) (hresponses : next.responses = st.responses)
    (hstatus : next.respStatus = st.respStatus) (hreading : next.parser = .reading) :
    Done next notes resp := by
  have hresponse := hopen.response
  rw [hparser] at hresponse
  obtain ⟨hfinished, hfilled⟩ := hresponse
  exact ⟨hnext.trans (hopen.cleared hparser), hreading, hfinished,
    hfilled.mono (congrFun hresponses resp) hstatus⟩

omit [DecidableEq Tid] [DecidableEq Resp] in
theorem Inv.outside (hinv : Inv st notes) (hlock : st.lock = some tid) {other : Tid}
    (hother : other ≠ tid) : (st.pcs other).inside = false := by
  cases hinside : (st.pcs other).inside with
  | false => rfl
  | true =>
    have hheld := (hinv.holder other hinside).symm.trans hlock
    exact absurd (Option.some.inj hheld) hother

omit [DecidableEq Resp] in
theorem Inv.of_held (hfacts : Facts st notes) (hlock : st.lock = some tid)
    (houtside : ∀ other, other ≠ tid → (st.pcs other).inside = false)
    (hinside : (st.pcs tid).inside = true) (hphase : Phase st notes tid (st.pcs tid)) :
    Inv st notes := by
  refine ⟨hfacts, fun other hother => ?_, fun hfree => ?_, fun other hheld => ?_⟩
  · by_cases hsame : other = tid
    · rw [hsame]
      exact hlock
    · exact absurd ((houtside other hsame).symm.trans hother) Bool.false_ne_true
  · exact absurd (hlock.symm.trans hfree) nofun
  · obtain rfl : tid = other := Option.some.inj (hlock.symm.trans hheld)
    exact ⟨hinside, hphase⟩

theorem clientParser_cleared (hstep : st.clientParser = some next) (hresp : st.resp = none) :
    next.resp = none := by
  cases hparser : st.parser <;> rw [State.clientParser, hparser] at hstep
  case reading | lost => cases hstep
  case copying | lengthening | counting | full | finishing =>
    cases hstep
    first | exact hresp | rfl
  case tested | taken | checking =>
    dsimp only at hstep
    split at hstep <;> obtain rfl := Option.some.inj hstep <;> exact hresp
  case releasing =>
    cases hstep
    rw [State.releaseNotice]
    split
    · split <;> exact hresp
    · exact hresp

variable {pc : CmdPc Resp}

theorem Phase.parse (hphase : Phase st notes tid pc) (hfacts : Facts st notes)
    (hstep : st.clientParser = some next) (htimely : Timely cfg (st, notes) .parse)
    (hquiet : st.parser ≠ .releasing) : Phase next (record cfg notes st .parse next ()) tid pc := by
  have hbusy := clientParser_ne_reading hstep
  obtain ⟨-, -, hsuspended, hnotice⟩ := clientParser_frame hstep hquiet
  have hkept : Quiet st notes → Quiet next (record cfg notes st .parse next ()) ∧
      next.respStatus = st.respStatus ∧
        record cfg notes st .parse next () = notes := by
    intro hquiet
    obtain ⟨rfl, hsame⟩ := hquiet.parse hstep htimely
    exact ⟨by rw [hsame]; exact hquiet.after, rfl, hsame⟩
  have hearly : ∀ resp, Early st notes resp →
      Early next (record cfg notes st .parse next ()) resp := by
    intro resp hearly
    obtain ⟨hnext, hsame⟩ := hearly.parse hfacts hstep htimely
    rwa [hsame]
  cases pc with
  | idle | locking => trivial
  | status =>
    obtain ⟨hnext, -, hsame⟩ := hkept hphase.1
    exact ⟨hnext, by rw [hsame]; exact hphase.2⟩
  | install =>
    obtain ⟨hnext, hstatus, hsame⟩ := hkept hphase.1
    exact ⟨hnext, by rw [hsame]; exact hphase.2.1, hstatus.trans hphase.2.2⟩
  | resetLen resp | resetCounts resp => exact hearly resp hphase
  | sending resp =>
    cases resp with
    | none => exact (hkept hphase).1
    | some resp => exact hearly resp hphase
  | taking resp =>
    obtain ⟨hnil, hopen | ⟨hdone, -⟩⟩ := hphase
    · exact ⟨hsuspended.trans hnil, Or.inl (hopen.parse hfacts hstep htimely hquiet)⟩
    · exact absurd hdone.parser hbusy
  | waiting resp =>
    exact ⟨hsuspended.trans hphase.1, hphase.2.parse hfacts hstep htimely hquiet⟩
  | judging resp => exact absurd hphase.2.1.parser hbusy
  | expired resp => exact hsuspended.trans hphase
  | clearing resp result =>
    cases resp with
    | none => exact (hkept hphase).1
    | some resp =>
      exact ⟨hsuspended.trans hphase.1, fun hresult =>
        absurd (hphase.2 hresult).1.parser hbusy⟩
  | unlocking resp result =>
    cases resp with
    | none => exact (hkept hphase).1
    | some resp =>
      exact ⟨hsuspended.trans hphase.1, clientParser_cleared hstep hphase.2.1,
        fun hresult => absurd (hphase.2.2 hresult).1.parser hbusy⟩

omit [DecidableEq Tid] [DecidableEq Resp] in
theorem Phase.release (hphase : Phase st notes tid pc) (hparser : st.parser = .releasing)
    (hwaits : ∀ resp, pc ≠ .waiting resp) (hinside : pc.inside = true) : st.suspended = [] ∧
      Phase { st with notice := (st.notice + 1) % 0x10000, parser := .reading }
        notes tid pc := by
  have hcalm : ¬ st.parser.calm = true := by
    rw [hparser]
    exact Bool.false_ne_true
  have hhandles : ∀ resp, ¬ st.parser.handles resp := by
    rw [hparser]
    exact fun _ => id
  have hbusy : st.parser ≠ .reading := by
    rw [hparser]
    exact nofun
  cases pc with
  | idle | locking => cases hinside
  | status | install => exact absurd hphase.1.calm hcalm
  | resetLen resp | resetCounts resp => exact absurd (Early.handles hphase) (hhandles resp)
  | sending resp =>
    cases resp with
    | none => exact absurd (Quiet.calm hphase) hcalm
    | some resp => exact absurd (Early.handles hphase) (hhandles resp)
  | taking resp =>
    obtain ⟨hnil, hopen | ⟨hdone, -⟩⟩ := hphase
    · refine ⟨hnil, hnil, Or.inr ⟨hopen.released hparser rfl rfl rfl rfl, ?_⟩⟩
      change (st.notice + 1) % 0x10000 = 1
      rw [hopen.notice]
    · exact absurd hdone.parser hbusy
  | waiting resp => exact absurd rfl (hwaits resp)
  | judging resp => exact absurd hphase.2.1.parser hbusy
  | expired resp => exact ⟨hphase, hphase⟩
  | clearing resp result =>
    cases resp with
    | none => exact absurd (Quiet.calm hphase) hcalm
    | some resp =>
      exact ⟨hphase.1, hphase.1, fun hresult => absurd (hphase.2 hresult).1.parser hbusy⟩
  | unlocking resp result =>
    cases resp with
    | none => exact absurd (Quiet.calm hphase) hcalm
    | some resp =>
      exact ⟨hphase.1, hphase.1, hphase.2.1,
        fun hresult => absurd (hphase.2.2 hresult).1.parser hbusy⟩

theorem parse_preserves (hinv : Inv st notes) (hstep : st.clientParser = some next)
    (htimely : Timely cfg (st, notes) .parse) :
    Inv next (record cfg notes st .parse next ()) := by
  have hfacts := clientParser_facts hstep htimely hinv.facts
  have hbusy := clientParser_ne_reading hstep
  have hfacts' : Facts next (record cfg notes st .parse next ()) := by
    simp only [record]
    split
    · split
      · exact ⟨hfacts.unsent, hfacts.stray, hfacts.own_kept, hfacts.kept, hfacts.line_ne⟩
      · exact hfacts
    · exact hfacts
  cases hlock : st.lock with
  | none =>
    obtain ⟨hquiet, hsent⟩ := hinv.free hlock
    obtain ⟨rfl, hsame⟩ := hquiet.parse hstep htimely
    rw [hsame] at hfacts' ⊢
    exact ⟨hfacts', hinv.holder, fun _ => ⟨hquiet.after, hsent⟩, fun tid htid => by
      rw [show st.lock = some tid from htid] at hlock; cases hlock⟩
  | some tid =>
    obtain ⟨hinside, hphase⟩ := hinv.phase tid hlock
    by_cases hreleasing : st.parser = .releasing
    · have hsame : record cfg notes st .parse next () = notes :=
        record_parse_of_ne fun other line => by rw [hreleasing]; exact nofun
      rw [hsame] at hfacts' ⊢
      rw [clientParser_releasing hreleasing] at hstep
      cases hstep
      by_cases hwaits : ∃ resp, st.pcs tid = .waiting resp
      · -- the notice wakes the command
        obtain ⟨resp, hpc⟩ := hwaits
        rw [hpc] at hphase
        obtain ⟨hsuspended, hopen⟩ := hphase
        rw [releaseNotice_waiting hsuspended hpc] at hfacts' ⊢
        have hpc' : update st.pcs tid (.judging resp) tid = .judging resp :=
          update_self ..
        refine Inv.of_held hfacts' hlock (fun other hother => ?_) ?_ ?_
        · change (update st.pcs tid _ other).inside = false
          rw [update_of_ne hother]
          exact hinv.outside hlock hother
        · change (update st.pcs tid _ tid).inside = true
          rw [hpc']
          rfl
        · change Phase _ notes tid (update st.pcs tid _ tid)
          rw [hpc']
          exact ⟨rfl, hopen.released hreleasing rfl rfl rfl rfl, hopen.notice⟩
      · obtain ⟨hnil, hphase'⟩ := hphase.release hreleasing
          (fun resp hpc => hwaits ⟨resp, hpc⟩) hinside
        rw [releaseNotice_nil hnil] at hfacts' ⊢
        exact Inv.of_held hfacts' hlock (fun other hother => hinv.outside hlock hother) hinside
          hphase'
    · obtain ⟨hlock', hpcs', -, -⟩ := clientParser_frame hstep hreleasing
      have hphase' := hphase.parse hinv.facts hstep htimely hreleasing
      refine Inv.of_held hfacts' (hlock'.trans hlock) (fun other hother => ?_) ?_ ?_
      · rw [hpcs']
        exact hinv.outside hlock hother
      · rw [hpcs']
        exact hinside
      · rw [hpcs']
        exact hphase'

/-! ## A line is received -/

/-- The notes of a line that is received for an installed response object. -/
def Notes.receive (notes : Notes) (line : List UInt8) : Notes :=
  { notes with
    own := notes.sent
    lines := if notes.sent = true then notes.lines ++ [line] else notes.lines
    orphaned := false }

omit [DecidableEq Tid] [DecidableEq Resp] in
theorem Facts.receive (hfacts : Facts st notes)
    (hnext : ∀ other, next.parser.inHand = some other →
    other ≠ []) : Facts next (notes.receive line) := by
  have hunsent : notes.sent = false → (notes.receive line).lines = [] := by
    intro hsent
    simp only [Notes.receive, hsent]
    exact (hfacts.unsent hsent).1
  exact ⟨fun hsent => ⟨hunsent hsent, hsent⟩, fun hown _ => hunsent hown, fun _ => rfl,
    fun _ => rfl, hnext⟩

omit [DecidableEq Tid] [DecidableEq Resp] in
theorem Early.receive (hearly : Early st notes resp) (hlock : next.resp = st.resp)
    (hnotice : next.notice = st.notice) (hsuspended : next.suspended = st.suspended)
    (hstatus : next.respStatus = st.respStatus) (hparser : next.parser.handles resp) :
    Early next (notes.receive line) resp where
  installed := hlock.trans hearly.installed
  notice := hnotice.trans hearly.notice
  suspended := hsuspended.trans hearly.suspended
  sent := hearly.sent
  status := by rw [hstatus]; exact hearly.status
  handles := hparser

omit [DecidableEq Tid] [DecidableEq Resp] in
theorem Open.receive (hopen : Open st notes resp) (hparser : st.parser = .reading) :
    Open { st with parser := .tested line } (notes.receive line) resp := by
  have hstatus := hopen.status
  have hresponse := hopen.response
  rw [hparser] at hstatus hresponse
  refine ⟨hopen.sent, hopen.notice, fun _ => hopen.installed (by rw [hparser]; exact nofun), nofun,
    fun _ => hstatus rfl, notes.lines, ?_, hresponse⟩
  simp only [Notes.receive, hopen.sent, if_true]

omit [DecidableEq Tid] [DecidableEq Resp] in
/-- Taking up a line, or dropping one that is too long. -/
theorem Phase.receive (hphase : Phase st notes tid pc) (hinside : pc.inside = true)
    (hreading : st.parser = .reading) (hresp : st.resp ≠ none)
    (hnext : next = { st with parser := .tested line } ∨ next = st ∧ notes.sent = false) :
    Phase next (notes.receive line) tid pc := by
  have hsame : next.resp = st.resp ∧ next.notice = st.notice ∧
      next.suspended = st.suspended ∧ next.respStatus = st.respStatus := by
    rcases hnext with rfl | ⟨rfl, -⟩ <;> exact ⟨rfl, rfl, rfl, rfl⟩
  obtain ⟨hsameResp, hnotice, hsuspended, hstatus⟩ := hsame
  have hearly : ∀ resp, Early st notes resp → Early next (notes.receive line) resp := by
    intro resp hearly
    refine hearly.receive hsameResp hnotice hsuspended hstatus ?_
    rcases hnext with rfl | ⟨rfl, -⟩
    · trivial
    · exact hearly.handles
  have hopened : ∀ resp, Open st notes resp → Open next (notes.receive line) resp := by
    intro resp hopen
    rcases hnext with rfl | ⟨-, hsent⟩
    · exact hopen.receive hreading
    · exact absurd (hsent.symm.trans hopen.sent) Bool.false_ne_true
  cases pc with
  | idle | locking => cases hinside
  | status | install => exact absurd hphase.1.cleared hresp
  | resetLen resp | resetCounts resp => exact hearly resp hphase
  | sending resp =>
    cases resp with
    | none => exact absurd (Quiet.cleared hphase) hresp
    | some resp => exact hearly resp hphase
  | taking resp =>
    obtain ⟨hnil, hopen | ⟨hdone, -⟩⟩ := hphase
    · exact ⟨hsuspended.trans hnil, Or.inl (hopened resp hopen)⟩
    · exact absurd hdone.cleared hresp
  | waiting resp => exact ⟨hsuspended.trans hphase.1, hopened resp hphase.2⟩
  | judging resp => exact absurd hphase.2.1.cleared hresp
  | expired resp => exact hsuspended.trans hphase
  | clearing resp result =>
    cases resp with
    | none => exact absurd (Quiet.cleared hphase) hresp
    | some resp =>
      exact ⟨hsuspended.trans hphase.1, fun hresult =>
        absurd (hphase.2 hresult).1.cleared hresp⟩
  | unlocking resp result =>
    cases resp with
    | none => exact absurd (Quiet.cleared hphase) hresp
    | some resp => exact absurd hphase.2.1 hresp

theorem receive_preserves (hinv : Inv st notes) (hstep : st.readLine cfg line = some next)
    (htimely : Timely cfg (st, notes) (.receive line)) :
    Inv next (record cfg notes st (.receive line) next ()) := by
  rw [State.readLine] at hstep
  split at hstep
  case isFalse => contradiction
  case isTrue hready =>
    obtain ⟨hreading, hline⟩ := hready
    by_cases hleft : st.resp = none ∨ cfg.isUrc line = true
    · -- the line is left
      have hnext : next = st := by
        rw [if_pos (Or.inr hleft.symm)] at hstep
        exact (Option.some.inj hstep).symm
      rw [record, if_pos hleft, hnext]
      exact hinv
    · rw [not_or, Bool.not_eq_true] at hleft
      obtain ⟨hresp, hurc⟩ := hleft
      have hrecord : record cfg notes st (.receive line) next () = notes.receive line := by
        rw [record, if_neg (by rw [not_or, Bool.not_eq_true]; exact ⟨hresp, hurc⟩)]
        rfl
      have hnext : next = { st with parser := .tested line } ∨
          next = st ∧ notes.sent = false := by
        split at hstep
        · next hdropped =>
          refine Or.inr ⟨(Option.some.inj hstep).symm, ?_⟩
          have hlong : cfg.recvBufsz < line.length := by
            refine hdropped.resolve_right ?_
            rw [hurc]
            exact fun hor => hor.elim Bool.false_ne_true hresp
          cases hsent : notes.sent with
          | false => rfl
          | true => exact absurd (htimely hresp hsent hurc) (by omega)
        · exact Or.inl (Option.some.inj hstep).symm
      have hsame : next.lock = st.lock ∧ next.pcs = st.pcs := by
        rcases hnext with rfl | ⟨rfl, -⟩ <;> exact ⟨rfl, rfl⟩
      have hinHand : ∀ other, next.parser.inHand = some other → other ≠ [] := by
        intro other hother
        rcases hnext with rfl | ⟨rfl, -⟩
        · cases hother
          exact hline
        · exact hinv.facts.line_ne other hother
      rw [hrecord]
      cases hlock : st.lock with
      | none => exact absurd (hinv.free hlock).1.cleared hresp
      | some tid =>
        obtain ⟨hinside, hphase⟩ := hinv.phase tid hlock
        refine Inv.of_held (hinv.facts.receive hinHand) (hsame.1.trans hlock)
          (fun other hother => ?_) ?_ ?_
        · rw [hsame.2]
          exact hinv.outside hlock hother
        · rw [hsame.2]
          exact hinside
        · rw [hsame.2]
          exact hphase.receive hinside hreading hresp hnext

/-! ## The steps of a command -/

omit [DecidableEq Tid] [DecidableEq Resp] in
theorem Facts.of_parser (hfacts : Facts st notes) (hparser : next.parser = st.parser) :
    Facts next notes := by
  refine ⟨hfacts.unsent, ?_, hfacts.own_kept, ?_, ?_⟩
  · rw [hparser]
    exact hfacts.stray
  · rw [hparser]
    exact hfacts.kept
  · rw [hparser]
    exact hfacts.line_ne

omit [DecidableEq Resp] in
theorem Inv.advance {notes' : Notes} (hinv : Inv st notes) (hlock : st.lock = some tid)
    (hfacts : Facts next notes') (hlock' : next.lock = some tid)
    (hpcs : next.pcs = update st.pcs tid pc) (hinside : pc.inside = true)
    (hphase : Phase next notes' tid pc) : Inv next notes' := by
  have hpc : next.pcs tid = pc := by
    rw [hpcs, update_self]
  refine Inv.of_held hfacts hlock' (fun other hother => ?_) ?_ ?_
  · rw [hpcs, update_of_ne hother]
    exact hinv.outside hlock hother
  · rw [hpc]
    exact hinside
  · rw [hpc]
    exact hphase

omit [DecidableEq Resp] in
theorem handles_of_calm {parser : ParserPc Resp} (hcalm : parser.calm = true) :
    parser.handles resp := by
  cases parser <;> trivial

omit [DecidableEq Resp] in
/-- When the command is sent none of its lines was received. -/
theorem Early.sent_open (hearly : Early st notes resp) (hfacts : Facts st notes)
    (hnext : next = st.setPc tid (.taking resp)) :
    Open next { notes with sent := true } resp := by
  obtain ⟨hlines, hown⟩ := hfacts.unsent hearly.sent
  have hhandles := hearly.handles
  have hreleasing : st.parser ≠ .releasing := by
    intro hparser
    rw [hparser] at hhandles
    exact hhandles
  have hfilled : Filled next resp notes.lines := by
    rw [hlines]
    exact fun _ => endsWith_nil
  have hpending : ∀ line, Pending next { notes with sent := true } resp line := by
    intro line
    refine ⟨[], ?_, fun _ => endsWith_nil⟩
    change notes.lines = [] ++ if notes.own = true then [line] else []
    rw [hlines, hown]
    rfl
  subst hnext
  refine ⟨rfl, hearly.notice, fun _ => hearly.installed, fun hparser => absurd hparser hreleasing,
    fun _ => hearly.status, ?_⟩
  change Response _ _ resp st.parser
  cases hparser : st.parser <;> rw [hparser] at hhandles
  case reading | checking => exact hfilled
  case tested line => exact hpending line
  case taken other line | copying other line => exact ⟨hhandles, hpending line⟩
  case lengthening other line =>
    exact ⟨hhandles, hpending line, fun howner => absurd (hown.symm.trans howner)
      Bool.false_ne_true⟩
  case counting => exact ⟨hhandles, hfilled⟩
  case full => exact hhandles
  case finishing | releasing | lost => exact absurd hhandles id

omit [DecidableEq Resp] in
theorem takeNotice_phase (hphase : Phase st notes tid (.taking resp)) :
    ∃ pc, (st.takeNotice tid resp).pcs = update st.pcs tid pc ∧
      pc.inside = true ∧ Phase (st.takeNotice tid resp) notes tid pc := by
  obtain ⟨hnil, hcase⟩ := hphase
  rw [State.takeNotice]
  split
  · next hpos =>
    have hdone : Done st notes resp ∧ st.notice = 1 :=
      hcase.resolve_left fun hopen => by rw [hopen.notice] at hpos; cases hpos
    refine ⟨.judging resp, rfl, rfl, hnil, ⟨hdone.1.cleared, hdone.1.parser, hdone.1.finished,
      hdone.1.filled.mono rfl rfl⟩, ?_⟩
    change st.notice - 1 = 0
    rw [hdone.2]
  · next hzero =>
    have hopen : Open st notes resp :=
      hcase.resolve_right fun hdone => hzero (by rw [hdone.2]; exact Nat.one_pos)
    split
    · exact ⟨.expired resp, rfl, rfl, hnil⟩
    · refine ⟨.waiting resp, rfl, rfl, ?_, ?_⟩
      · change st.suspended ++ [tid] = [tid]
        rw [hnil, List.nil_append]
      · exact ⟨hopen.sent, hopen.notice, hopen.installed, hopen.cleared, hopen.status,
          hopen.response⟩

omit [DecidableEq Resp] in
/-- The threads that do not hold the lock do not matter to the one that does. -/
theorem Phase.setPc (hphase : Phase st notes tid pc) (other : Tid) (pc' : CmdPc Resp) :
    Phase (st.setPc other pc') notes tid pc := by
  have hquiet : Quiet st notes → Quiet (st.setPc other pc') notes := fun hquiet =>
    ⟨hquiet.cleared, hquiet.notice, hquiet.suspended, hquiet.calm, hquiet.own⟩
  have hearly : ∀ resp, Early st notes resp → Early (st.setPc other pc') notes resp :=
    fun resp hearly => ⟨hearly.installed, hearly.notice, hearly.suspended, hearly.sent,
      hearly.status, hearly.handles⟩
  have hopen : ∀ resp, Open st notes resp → Open (st.setPc other pc') notes resp :=
    fun resp hopen => ⟨hopen.sent, hopen.notice, hopen.installed, hopen.cleared, hopen.status,
      hopen.response⟩
  have hdone : ∀ resp, Done st notes resp → Done (st.setPc other pc') notes resp :=
    fun resp hdone => ⟨hdone.cleared, hdone.parser, hdone.finished, hdone.filled⟩
  cases pc with
  | idle | locking => trivial
  | status | install => exact ⟨hquiet hphase.1, hphase.2⟩
  | resetLen resp | resetCounts resp => exact hearly resp hphase
  | sending resp =>
    cases resp with
    | none => exact hquiet hphase
    | some resp => exact hearly resp hphase
  | taking resp => exact ⟨hphase.1, hphase.2.imp (hopen resp) (And.imp_left (hdone resp))⟩
  | waiting resp => exact ⟨hphase.1, hopen resp hphase.2⟩
  | judging resp => exact ⟨hphase.1, hdone resp hphase.2.1, hphase.2.2⟩
  | expired => exact hphase
  | clearing resp result =>
    cases resp with
    | none => exact hquiet hphase
    | some resp => exact ⟨hphase.1, fun hresult => (hphase.2 hresult).imp_left (hdone resp)⟩
  | unlocking resp result =>
    cases resp with
    | none => exact hquiet hphase
    | some resp =>
      exact ⟨hphase.1, hphase.2.1, fun hresult => (hphase.2.2 hresult).imp_left (hdone resp)⟩

omit [DecidableEq Resp] in
theorem Inv.idle (hinv : Inv st notes) (houtside : (st.pcs tid).inside = false)
    (hpc : pc.inside = false) : Inv (st.setPc tid pc) notes := by
  have hpcs : ∀ other, (update st.pcs tid pc other).inside =
    (st.pcs other).inside := by
    intro other
    by_cases hother : other = tid
    · rw [hother, update_self, hpc, houtside]
    · rw [update_of_ne hother]
  refine ⟨hinv.facts.of_parser rfl, fun other hother => ?_, fun hfree => ?_,
    fun other hheld => ?_⟩
  · exact hinv.holder other ((hpcs other).symm.trans hother)
  · obtain ⟨⟨hcleared, hnotice, hsuspended, hcalm, hown⟩, hsent⟩ := hinv.free hfree
    exact ⟨⟨hcleared, hnotice, hsuspended, hcalm, hown⟩, hsent⟩
  · obtain ⟨hinside, hphase⟩ := hinv.phase other hheld
    have hne : other ≠ tid := by
      intro hsame
      rw [hsame, houtside] at hinside
      cases hinside
    change (update st.pcs tid pc other).inside = true ∧
      Phase _ notes other (update st.pcs tid pc other)
    rw [update_of_ne hne]
    exact ⟨hinside, hphase.setPc tid pc⟩

theorem execCmd_preserves (hinv : Inv st notes) (hstep : st.execCmd tid = some next)
    (htimely : Timely cfg (st, notes) (.run tid)) :
    Inv next (record cfg notes st (.run tid) next ()) := by
  cases hpc : st.pcs tid <;> simp only [State.execCmd, hpc] at hstep <;>
    simp only [record, hpc]
  case idle | waiting => cases hstep
  case locking resp =>
    split at hstep
    · next hfree =>
      cases hstep
      obtain ⟨hquiet, hsent⟩ := hinv.free hfree
      have hpc' : update st.pcs tid (.status resp) tid = .status resp :=
        update_self ..
      refine Inv.of_held (hinv.facts.of_parser rfl) rfl (fun other hother => ?_) ?_ ?_
      · change (update st.pcs tid _ other).inside = false
        rw [update_of_ne hother]
        cases hinside : (st.pcs other).inside with
        | false => rfl
        | true => exact absurd (hfree.symm.trans (hinv.holder other hinside)) nofun
      · change (update st.pcs tid _ tid).inside = true
        rw [hpc']
        rfl
      · change Phase _ notes tid (update st.pcs tid _ tid)
        rw [hpc']
        exact ⟨⟨hquiet.cleared, hquiet.notice, hquiet.suspended, hquiet.calm, hquiet.own⟩, hsent⟩
    · contradiction
  all_goals
    have hlock := hinv.holder tid (by rw [hpc]; rfl)
    have hphase := (hinv.phase tid hlock).2
    rw [hpc] at hphase
  case status resp =>
    cases hstep
    obtain ⟨hquiet, hsent⟩ := hphase
    exact hinv.advance hlock (hinv.facts.of_parser rfl) hlock rfl rfl
      ⟨⟨hquiet.cleared, hquiet.notice, hquiet.suspended, hquiet.calm, hquiet.own⟩, hsent, rfl⟩
  case install resp =>
    obtain ⟨hquiet, hsent, hstatus⟩ := hphase
    cases resp with
    | none =>
      cases hstep
      exact hinv.advance hlock (hinv.facts.of_parser rfl) hlock rfl rfl
        ⟨rfl, hquiet.notice, hquiet.suspended, hquiet.calm, hquiet.own⟩
    | some resp =>
      cases hstep
      exact hinv.advance hlock (hinv.facts.of_parser rfl) hlock rfl rfl
        ⟨rfl, hquiet.notice, hquiet.suspended, hsent, Or.inl hstatus,
          handles_of_calm hquiet.calm⟩
  case resetLen resp | resetCounts resp =>
    cases hstep
    obtain ⟨hinstalled, hnotice, hsuspended, hsent, hstatus, hhandles⟩ : Early st notes resp :=
      hphase
    exact hinv.advance hlock (hinv.facts.of_parser rfl) hlock rfl rfl
      ⟨hinstalled, hnotice, hsuspended, hsent, hstatus, hhandles⟩
  case sending resp =>
    have hfacts : Facts st { notes with sent := true } :=
      ⟨fun hsent => absurd hsent nofun, hinv.facts.stray, hinv.facts.own_kept, hinv.facts.kept,
        hinv.facts.line_ne⟩
    cases resp with
    | none =>
      cases hstep
      obtain ⟨hcleared, hnotice, hsuspended, hcalm, hown⟩ : Quiet st notes := hphase
      exact hinv.advance hlock (hfacts.of_parser rfl) hlock rfl rfl
        ⟨hcleared, hnotice, hsuspended, hcalm, hown⟩
    | some resp =>
      cases hstep
      have hearly : Early st notes resp := hphase
      exact hinv.advance hlock (hfacts.of_parser rfl) hlock rfl rfl
        ⟨hearly.suspended, Or.inl (hearly.sent_open hinv.facts rfl)⟩
  case taking resp =>
    cases hstep
    obtain ⟨pc, hpcs, hinside, hphase'⟩ := takeNotice_phase hphase
    have hframe : (st.takeNotice tid resp).lock = st.lock ∧
        (st.takeNotice tid resp).parser = st.parser := by
      rw [State.takeNotice]
      split
      · exact ⟨rfl, rfl⟩
      · split <;> exact ⟨rfl, rfl⟩
    exact hinv.advance hlock (hinv.facts.of_parser hframe.2) (hframe.1.trans hlock) hpcs hinside
      hphase'
  case expired resp =>
    cases hstep
    exact hinv.advance hlock (hinv.facts.of_parser rfl) hlock rfl rfl
      ⟨hphase, fun hresult => absurd rfl hresult⟩
  case judging resp =>
    cases hstep
    obtain ⟨hnil, hdone, hnotice⟩ := hphase
    refine hinv.advance hlock (hinv.facts.of_parser rfl) hlock rfl rfl ⟨hnil, fun _ =>
      ⟨⟨hdone.cleared, hdone.parser, hdone.finished, hdone.filled.mono rfl rfl⟩, hnotice, ?_⟩⟩
    intro hresult
    by_contra hstatus
    have herror : (if st.respStatus = .ok then Result.eok else Result.error) = .error :=
      if_neg hstatus
    exact absurd (herror.symm.trans hresult) nofun
  case clearing resp result =>
    cases hstep
    cases resp with
    | none =>
      obtain ⟨-, hnotice, hsuspended, hcalm, hown⟩ : Quiet st notes := hphase
      exact hinv.advance hlock (hinv.facts.of_parser rfl) hlock rfl rfl
        ⟨rfl, hnotice, hsuspended, hcalm, hown⟩
    | some resp =>
      refine hinv.advance hlock (hinv.facts.of_parser rfl) hlock rfl rfl
        ⟨hphase.1, rfl, fun hresult => ?_⟩
      obtain ⟨hdone, hnotice, hstatus⟩ := hphase.2 hresult
      exact ⟨⟨rfl, hdone.parser, hdone.finished, hdone.filled.mono rfl rfl⟩, hnotice, hstatus⟩
  case unlocking resp result =>
    cases hstep
    simp only [Timely, hpc] at htimely
    obtain ⟨hnotice, hcalm⟩ := htimely
    have hleft : st.resp = none ∧ st.suspended = [] := by
      cases resp with
      | none => exact ⟨Quiet.cleared hphase, Quiet.suspended hphase⟩
      | some resp => exact ⟨hphase.2.1, hphase.1⟩
    refine ⟨⟨fun _ => ⟨rfl, rfl⟩, fun _ _ => rfl, nofun, fun hbusy => ?_, hinv.facts.line_ne⟩,
      fun other hother => ?_, fun _ => ⟨⟨hleft.1, hnotice, hleft.2, hcalm, rfl⟩, rfl⟩, nofun⟩
    · exact absurd (hcalm.symm.trans hbusy) nofun
    · change (update st.pcs tid .idle other).inside = true at hother
      by_cases hsame : other = tid
      · rw [hsame, update_self] at hother
        cases hother
      · rw [update_of_ne hsame, hinv.outside hlock hsame] at hother
        cases hother

theorem step_preserves {act : Action Tid Resp} (hinv : Inv st notes)
    (htimely : Timely cfg (st, notes) act)
    (hstep : step cfg st act = some (next, ())) :
    Inv next (record cfg notes st act next ()) := by
  cases act with
  | call tid resp =>
    rw [step] at hstep
    split at hstep
    · next hidle =>
      obtain rfl := (Prod.mk.inj (Option.some.inj hstep)).1
      exact hinv.idle (by rw [hidle]; rfl) rfl
    · contradiction
  | run tid =>
    obtain ⟨after, hafter, hnext⟩ := Option.map_eq_some_iff.1 hstep
    obtain rfl := (Prod.mk.inj hnext).1
    exact execCmd_preserves hinv hafter htimely
  | expire tid =>
    rw [step] at hstep
    split at hstep
    · next resp hpc =>
      split at hstep
      · obtain rfl := (Prod.mk.inj (Option.some.inj hstep)).1
        have hlock := hinv.holder tid (by rw [hpc]; rfl)
        have hphase := (hinv.phase tid hlock).2
        rw [hpc] at hphase
        refine hinv.advance hlock (hinv.facts.of_parser rfl) hlock rfl rfl ?_
        change st.suspended.erase tid = []
        rw [hphase.1, List.erase_cons_head]
      · contradiction
    · contradiction
  | receive line =>
    obtain ⟨after, hafter, hnext⟩ := Option.map_eq_some_iff.1 hstep
    obtain rfl := (Prod.mk.inj hnext).1
    exact receive_preserves hinv hafter htimely
  | parse =>
    obtain ⟨after, hafter, hnext⟩ := Option.map_eq_some_iff.1 hstep
    obtain rfl := (Prod.mk.inj hnext).1
    exact parse_preserves hinv hafter htimely

/-! ## Runs -/

def recordedMachine (cfg : Config) :
    Machine (State Tid Resp × Notes) (Action Tid Resp) Unit :=
  (machine cfg).recorded (record cfg)

/-- Every run can be recorded, and as long as its steps are timely every command that returns
`RT_EOK` has its own response. -/
theorem at_commands_paired (cfg : Config) (responses : Resp → AtResponse) :
    (∀ trace (last : State Tid Resp), (machine cfg).Run (initial responses) trace last →
        ∃ notes, (recordedMachine cfg).Run (initial responses, Notes.init) trace (last, notes)) ∧
      ∀ trace (last : State Tid Resp × Notes),
        (recordedMachine cfg).RunWith (Timely cfg) (initial responses, Notes.init)
          trace last →
          (recordedMachine cfg).RunWith (fun st _ => Paired st)
            (initial responses, Notes.init) trace last ∧ Paired last := by
  refine ⟨fun trace last hrun => hrun.recorded _ _, fun trace last hrun => ?_⟩
  have hpreserve : ∀ (st : State Tid Resp × Notes) action next event, Inv st.1 st.2 →
      Timely cfg st action → (recordedMachine cfg).step st action = some (next, event) →
        Inv next.1 next.2 := by
    intro st action next event hinv htimely hstep
    obtain ⟨hstep, hnotes⟩ := Machine.recorded_step.1 hstep
    rw [hnotes]
    exact step_preserves hinv htimely hstep
  have hinv : Inv (initial responses : State Tid Resp) Notes.init := inv_init responses
  obtain ⟨hvisited, hlast⟩ := hrun.always (fun st => Inv st.1 st.2) hpreserve hinv
  exact ⟨hvisited.mono fun st _ hinv => hinv.paired, hlast.paired⟩

/-! ## Two commands -/

def someConfig : Config := ⟨64, fun _ => false⟩

def someResponse : AtResponse := ⟨fun _ => 0, 64, 0, 0, 0, 10⟩

def okLine : List UInt8 := [0x4f, 0x4b, 0x0d, 0x0a]

def otherLine : List UInt8 := [0x31, 0x0d, 0x0a]

instance (cfg : Config) (st : State Tid Resp × Notes) :
    (act : Action Tid Resp) → Decidable (Timely cfg st act)
  | .run tid =>
    match hpc : st.1.pcs tid with
    | .unlocking _ _ =>
      decidable_of_iff (st.1.notice = 0 ∧ st.1.parser.calm = true) (by simp [Timely, hpc])
    | .idle | .locking _ | .status _ | .install _ | .resetLen _ | .resetCounts _ | .sending _
    | .taking _ | .waiting _ | .expired _ | .judging _ | .clearing _ _ =>
      isTrue (by simp [Timely, hpc])
  | .receive line =>
    inferInstanceAs (Decidable (st.1.resp ≠ none → st.2.sent = true →
      cfg.isUrc line = false → line.length ≤ cfg.recvBufsz))
  | .parse =>
    match hparser : st.1.parser with
    | .checking resp line =>
      match hresult : checkResult (st.1.responses resp) line with
      | some .ok =>
        decidable_of_iff (st.2.own = true ∧ st.1.respStatus ≠ .buffFull)
          (by simp [Timely, hparser, hresult])
      | some .error | some .timeout | some .buffFull =>
        decidable_of_iff (st.2.own = true) (by simp [Timely, hparser, hresult])
      | none => isTrue (by simp [Timely, hparser, hresult])
    | .reading | .tested _ | .taken _ _ | .copying _ _ | .lengthening _ _ | .counting _ _
    | .full _ _ | .finishing | .releasing | .lost => isTrue (by simp [Timely, hparser])
  | .call _ _ | .expire _ => isTrue trivial

/-- A command waits, and the parser handles two lines for it. -/
def scheduleAnswer (tid : Tid) (resp : Resp) : List (Action Tid Resp) :=
  List.flatten [.call tid (some resp) :: List.replicate 7 (.run tid),
    .receive otherLine :: List.replicate 6 .parse, .receive okLine :: List.replicate 8 .parse,
    List.replicate 3 (.run tid)]

theorem isSome_scheduleAnswer :
    ((recordedMachine someConfig).exec (Timely someConfig)
      (initial fun _ => someResponse, Notes.init) (scheduleAnswer true true)).isSome = true := by
  decide

theorem at_commands_paired_scheduleAnswer :
    Paired (((recordedMachine someConfig).exec (Timely someConfig)
      (initial fun _ => someResponse, Notes.init) (scheduleAnswer true true)).get
        isSome_scheduleAnswer).1 :=
  ((at_commands_paired someConfig fun _ => someResponse).2 _ _
    (Machine.runWith_of_isSome _ isSome_scheduleAnswer)).2

/-- The first command waits for its time while the parser finishes its response, and the second
one takes the notice of the first. -/
def scheduleLate (first second : Tid) (resp other : Resp) : List (Action Tid Resp) :=
  List.flatten [.call first (some resp) :: List.replicate 7 (.run first),
    .receive okLine :: List.replicate 6 .parse, .expire first :: List.replicate 3 (.run first),
    List.replicate 2 .parse, .call second (some other) :: List.replicate 9 (.run second)]

theorem isSome_scheduleLate :
    ((recordedMachine someConfig).exec (fun _ _ => True)
      (initial fun _ => someResponse, Notes.init) (scheduleLate true false true false)).isSome =
        true := by
  decide

/-- A command returns `RT_EOK` before the parser has received a line for it. -/
theorem at_command_unanswered :
    ∃ trace last, (recordedMachine someConfig).Run
        (initial fun _ : Bool => someResponse, Notes.init) trace last ∧
      last.1.pcs false = .unlocking (some false) .eok ∧ last.2.finished = false ∧
        ¬ Paired last := by
  have hpc : (((recordedMachine someConfig).exec (fun _ _ => True)
      (initial fun _ => someResponse, Notes.init) (scheduleLate true false true false)).get
        isSome_scheduleLate).1.1.pcs false = .unlocking (some false) .eok := by
    decide
  have hfinished : (((recordedMachine someConfig).exec (fun _ _ => True)
      (initial fun _ => someResponse, Notes.init) (scheduleLate true false true false)).get
        isSome_scheduleLate).1.2.finished = false := by
    decide
  refine ⟨_, _, Machine.runWith_of_isSome _ isSome_scheduleLate, hpc, hfinished, fun hpaired => ?_⟩
  exact absurd ((hpaired.answered false false hpc).1.symm.trans hfinished) nofun

end RtThread.AtClient
