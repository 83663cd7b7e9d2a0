import RtThread.Utilities.YmodemTransfer

set_option linter.all false

/-!
# Runs of the YMODEM receiver

Where the receiver stands in the transfer of a sender, what it has given to the application of
it so far, and what a transfer that ends well has given to the application.
-/

namespace RtThread.Ymodem

open RtThread.Core

/-- What the application is given of a file: a package that is sent again is given again. -/
def File.delivered (file : File) : List Call :=
  .onBegin file.header.payload :: file.sent.map fun package => .onData package.2.payload

def RymCtx.given (ctx : RymCtx) : List Call :=
  ctx.calls.filter Call.isTransfer

/-- The receiver has come to a file; all header blocks after the first were small ones. -/
structure Reached (session : Session) (past : List File) (file : File) (later : List File) :
    Prop where
  files_eq : session.files = past ++ file :: later
  small : ∀ other ∈ (past ++ [file]).tail, other.header.size = .soh

/-- In the loop that reads the packages of a file. -/
structure Reading (session : Session) (ctx : RymCtx) (past : List File) (file : File)
    (later : List File) (headers : ℕ) (before after : List (UInt8 × Block)) : Prop where
  reached : Reached session past file later
  sent_eq : file.sent = before ++ after
  input : ctx.input.reduceOption = again headers file.header ++ lineOf after ++
    [rymCodeEot, rymCodeEot] ++ session.from later
  given : ctx.given = past.flatMap File.delivered ++
    .onBegin file.header.payload :: before.map fun package => .onData package.2.payload
  stage : ctx.stage = .established ∧ before = [] ∨ ctx.stage = .transmitting ∧ headers = 0

/-- Where the receiver stands in a transfer of some files. -/
def Follows (session : Session) : RymCtx × Pc → Prop
  | (ctx, .handshake _) => ctx.input.reduceOption = session.bytes ∧ ctx.given = []
  | (ctx, .trans) => ∃ past file later, Reached session past file later ∧
      ctx.input.reduceOption = file.body ++ session.from later ∧
      ctx.given = past.flatMap File.delivered ++ [.onBegin file.header.payload]
  | (ctx, .transLoop) => ∃ past file later headers before after,
      Reading session ctx past file later headers before after
  | (ctx, .fin) => ∃ past file later, Reached session past file later ∧
      ctx.input.reduceOption = rymCodeEot :: session.from later ∧
      ctx.given = (past ++ [file]).flatMap File.delivered
  | (ctx, .done err) => err = .eok →
      ctx.given = session.files.flatMap File.delivered ∧
        ∀ other ∈ session.files.tail, other.header.size = .soh

/-- A transfer of no file goes no further than its null block. -/
def Stuck (session : Session) : RymCtx × Pc → Prop
  | (ctx, .handshake _) => ctx.input.reduceOption = session.bytes
  | (ctx, .trans) => ∃ copies,
      ctx.input.reduceOption = again copies (nullBlock session.nullSize)
  | (ctx, .transLoop) => ctx.stage = .established ∧ ∃ copies,
      ctx.input.reduceOption = again copies (nullBlock session.nullSize)
  | (_, .fin) => False
  | (_, .done err) => err ≠ .eok

variable {callbacks : Callbacks} {session : Session} {ctx : RymCtx}

theorem again_succ (copies : ℕ) (header : Block) :
    again (copies + 1) header = header.bytes 0 ++ again copies header :=
  rfl

theorem lineOf_cons (package : UInt8 × Block) (packages : List (UInt8 × Block)) :
    lineOf (package :: packages) = package.2.bytes package.1 ++ lineOf packages :=
  rfl

theorem given_eq {after : RymCtx} {calls : List Call} (hcalls : after.calls = ctx.calls ++ calls) :
    after.given = ctx.given ++ calls.filter Call.isTransfer := by
  rw [RymCtx.given, hcalls, List.filter_append]
  rfl

theorem sent_head {file : File} {package : UInt8 × Block} {after : List (UInt8 × Block)}
    (hsent : file.sent = package :: after) : package.1 ≠ 0 := by
  rw [File.sent] at hsent
  cases hpackages : file.packages with
  | nil =>
    rw [hpackages] at hsent
    cases hsent
  | cons first rest =>
    rw [hpackages, sentFrom, List.replicate_succ, List.cons_append] at hsent
    rw [← (List.cons.inj hsent).1]
    exact (by decide : (1 : UInt8) ≠ 0)

/-! ## The parts of a transfer -/

theorem proceed_eq_done {pc : Pc} {err : RymErr} (herr : err ≠ .eok) :
    proceed pc err = .done err := by
  cases err with
  | eok => exact absurd rfl herr
  | _ => rfl

theorem follows_handshake {turns : ℕ} (hfiles : session.files ≠ [])
    (hfollows : Follows session (ctx, .handshake turns)) :
    Follows session ((rymDoHandshake callbacks turns ctx).1,
      proceed .trans (rymDoHandshake callbacks turns ctx).2) := by
  obtain ⟨hinput, hgiven⟩ := hfollows
  by_cases hok : (rymDoHandshake callbacks turns ctx).2 = .eok
  · obtain ⟨file, later, heq⟩ := List.exists_cons_of_ne_nil hfiles
    have hbytes : ctx.input.reduceOption =
        file.header.bytes 0 ++ (file.body ++ session.from later) := by
      rw [hinput, Session.bytes, heq]
      simp only [Session.from, List.flatMap_cons, File.bytes, List.append_assoc]
    obtain ⟨hcalls, hleft⟩ := rymDoHandshake_spec hbytes hok
    rw [hok]
    refine ⟨[], file, later, ⟨heq, nofun⟩, hleft, ?_⟩
    rw [given_eq hcalls, hgiven]
    rfl
  · rw [proceed_eq_done hok]
    exact fun heok => absurd heok hok

theorem follows_trans (hfollows : Follows session (ctx, .trans)) :
    Follows session ({ rymPutchar (rymPutchar ctx rymCodeAck) rymCodeC with stage := .established },
      .transLoop) := by
  obtain ⟨past, file, later, hreached, hinput, hgiven⟩ := hfollows
  exact ⟨past, file, later, file.repeats, [], file.sent, hreached, rfl, hinput, hgiven,
    Or.inl ⟨rfl, rfl⟩⟩

theorem follows_of_pc {after : RymCtx × Pc} {pc : Pc} (hpc : after.2 = pc)
    (hfollows : Follows session (after.1, pc)) : Follows session after := by
  subst hpc
  exact hfollows

theorem follows_error {after : RymCtx × Pc} {err : RymErr} (herr : err ≠ .eok)
    (hdone : after.2 = .done err) : Follows session after :=
  follows_of_pc hdone fun heok => absurd heok herr

theorem follows_loop (hfollows : Follows session (ctx, .transLoop)) :
    Follows session (rymTransTurn callbacks ctx) := by
  obtain ⟨past, file, later, headers, before, after, hreading⟩ := hfollows
  have hinput := hreading.input
  cases headers with
  | succ headers =>
    -- the header block once more: no package of the file was read yet
    obtain ⟨hestablished, hbefore⟩ : ctx.stage = .established ∧ before = [] :=
      hreading.stage.resolve_right fun hnone => Nat.succ_ne_zero headers hnone.2
    rw [again_succ, List.append_assoc, List.append_assoc, List.append_assoc] at hinput
    rcases rymTransTurn_package hinput with ⟨err, herr, hdone⟩ | ⟨hloop, hleft, code, haccepted⟩
    · exact follows_error herr hdone
    · obtain ⟨hcalls, hstage, -⟩ := haccepted.again hestablished rfl
      have hgiven : (rymTransTurn callbacks ctx).1.given = ctx.given := by
        rw [RymCtx.given, hcalls]
        rfl
      refine follows_of_pc hloop ⟨past, file, later, headers, before, after, hreading.reached,
        hreading.sent_eq, ?_, hgiven.trans hreading.given, Or.inl ⟨hstage, hbefore⟩⟩
      rw [hleft]
      simp only [List.append_assoc]
  | zero =>
    cases after with
    | cons package after =>
      rw [lineOf_cons, List.append_assoc, List.append_assoc, List.append_assoc] at hinput
      have hdata : ¬ (ctx.stage = .established ∧ package.1 = 0) := by
        rintro ⟨hestablished, hzero⟩
        rcases hreading.stage with ⟨-, rfl⟩ | ⟨htransmitting, -⟩
        · exact sent_head hreading.sent_eq hzero
        · rw [hestablished] at htransmitting
          cases htransmitting
      rcases rymTransTurn_package hinput with
        ⟨err, herr, hdone⟩ | ⟨hloop, hleft, code, haccepted⟩
      · exact follows_error herr hdone
      · obtain ⟨hcalls, hstage, -⟩ := haccepted.data hdata
        refine follows_of_pc hloop ⟨past, file, later, 0, before ++ [package], after,
          hreading.reached, ?_, ?_, ?_, Or.inr ⟨hstage, rfl⟩⟩
        · rw [hreading.sent_eq, List.append_assoc]
          rfl
        · rw [hleft]
          simp only [List.append_assoc]
          rfl
        · rw [given_eq hcalls, hreading.given, List.map_append, List.append_assoc]
          rfl
    | nil =>
      have hsent : file.sent = before := by rw [hreading.sent_eq, List.append_nil]
      have hcode : RymErr.code ≠ .eok := nofun
      rcases rymTransTurn_eot hinput with hdone | ⟨hfin, hleft, hcalls⟩
      · exact follows_error hcode hdone
      · refine follows_of_pc hfin ⟨past, file, later, hreading.reached, hleft, ?_⟩
        rw [RymCtx.given, hcalls]
        refine hreading.given.trans ?_
        rw [List.flatMap_append, List.flatMap_singleton, File.delivered, hsent]

theorem follows_fin (hreadable : Readable session.files.tail)
    (hfollows : Follows session (ctx, .fin)) :
    Follows session ((rymDoFin callbacks ctx).1,
      proceed (if (rymDoFin callbacks ctx).1.stage = .finished then .done .eok else .trans)
        (rymDoFin callbacks ctx).2) := by
  obtain ⟨past, file, later, hreached, hinput, hgiven⟩ := hfollows
  by_cases hok : (rymDoFin callbacks ctx).2 = .eok
  · rw [hok]
    cases later with
    | nil =>
      obtain ⟨hstage, hcalls⟩ := rymDoFin_null hinput hok
      rw [hstage, if_pos rfl]
      refine fun _ => ⟨?_, ?_⟩
      · rw [given_eq hcalls, hgiven, hreached.files_eq]
        exact List.append_nil _
      · rw [hreached.files_eq]
        exact hreached.small
    | cons next later =>
      have hlater : next ∈ session.files.tail := by
        rw [hreached.files_eq]
        cases past <;> simp
      have hbytes : ctx.input.reduceOption =
          rymCodeEot :: (next.header.bytes 0 ++ (next.body ++ session.from later)) := by
        rw [hinput]
        simp only [Session.from, List.flatMap_cons, File.bytes, List.append_assoc]
      obtain ⟨hsmall, hstage, hcalls, hleft⟩ :=
        rymDoFin_header next.named (hreadable next hlater) hbytes hok
      rw [hstage, if_neg nofun]
      refine ⟨past ++ [file], next, later, ⟨?_, ?_⟩, hleft, ?_⟩
      · rw [hreached.files_eq, List.append_assoc]
        rfl
      · intro other hother
        rw [List.tail_append_of_ne_nil (by simp)] at hother
        rcases List.mem_append.1 hother with hpast | hnext
        · exact hreached.small other hpast
        · rw [List.mem_singleton.1 hnext]
          exact hsmall
      · rw [List.append_assoc] at hcalls
        rw [given_eq hcalls, hgiven]
        rfl
  · rw [proceed_eq_done hok]
    exact fun heok => absurd heok hok

theorem step_follows {st next : RymCtx × Pc} (hfiles : session.files ≠ [])
    (hreadable : Readable session.files.tail) (hfollows : Follows session st)
    (hstep : step callbacks st () = some (next, ())) : Follows session next := by
  obtain ⟨ctx, pc⟩ := st
  cases pc with
  | handshake turns =>
    cases hstep
    exact follows_handshake hfiles hfollows
  | trans =>
    cases hstep
    exact follows_trans hfollows
  | transLoop =>
    cases hstep
    exact follows_loop hfollows
  | fin =>
    cases hstep
    exact follows_fin hreadable hfollows
  | done err => cases hstep

theorem stuck_handshake {turns : ℕ} (hfiles : session.files = [])
    (hstuck : Stuck session (ctx, .handshake turns)) :
    Stuck session ((rymDoHandshake callbacks turns ctx).1,
      proceed .trans (rymDoHandshake callbacks turns ctx).2) := by
  have hinput : ctx.input.reduceOption = session.bytes := hstuck
  rw [Session.bytes, hfiles] at hinput
  by_cases hok : (rymDoHandshake callbacks turns ctx).2 = .eok
  · rw [hok]
    exact ⟨session.nullRepeats, (rymDoHandshake_spec hinput hok).2⟩
  · rw [proceed_eq_done hok]
    exact hok

theorem step_stuck {st next : RymCtx × Pc} (hfiles : session.files = [])
    (hstuck : Stuck session st) (hstep : step callbacks st () = some (next, ())) :
    Stuck session next := by
  obtain ⟨ctx, pc⟩ := st
  cases pc with
  | handshake turns =>
    cases hstep
    exact stuck_handshake hfiles hstuck
  | trans =>
    cases hstep
    exact ⟨rfl, hstuck⟩
  | transLoop =>
    obtain ⟨hestablished, copies, hinput⟩ := hstuck
    obtain ⟨hnext, -⟩ := Prod.mk.inj (Option.some.inj hstep)
    rw [← hnext, ← Prod.mk.eta (p := rymTransTurn callbacks ctx)]
    cases copies with
    | zero =>
      rw [rymTransTurn_nil hinput]
      exact nofun
    | succ copies =>
      rw [again_succ] at hinput
      rcases rymTransTurn_package hinput with
        ⟨err, herr, hdone⟩ | ⟨hloop, hleft, code, haccepted⟩
      · rw [hdone]
        exact herr
      · rw [hloop]
        exact ⟨(haccepted.again hestablished rfl).2.1, copies, hleft⟩
  | fin => exact hstuck.elim
  | done err => cases hstep

end RtThread.Ymodem
