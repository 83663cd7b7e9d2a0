import RtThread.Utilities.YmodemRun

set_option linter.all false

/-!
# A YMODEM transfer that ends well

On a line where no wait runs into its time-out, with an application that acknowledges
everything, the receiver comes to the end of every transfer whose later header blocks are small
ones.  What the application was given of it then shows which packages were sent again.
-/

namespace RtThread.Ymodem

open RtThread.Core
open RtThread.Ringbuffer (copyIn copyOut)

/-- An application that acknowledges everything. -/
def acknowledging : Callbacks where
  onBegin _ _ := rymCodeAck
  onData _ _ := rymCodeAck

/-- No wait runs into its time-out. -/
def Clean (ctx : RymCtx) : Prop :=
  none ∉ ctx.input

variable {callbacks : Callbacks} {session : Session} {ctx : RymCtx} {byte : UInt8}
  {bytes rest : List UInt8}

/-! ## Reads -/

theorem rymReadCode_clean (hclean : Clean ctx) (hinput : ctx.input.reduceOption = byte :: rest) :
    (rymReadCode ctx).2 = byte ∧ (rymReadCode ctx).1.input.reduceOption = rest ∧
      Clean (rymReadCode ctx).1 := by
  rw [Clean] at hclean
  simp only [rymReadCode, Clean]
  cases hcase : ctx.input with
  | nil =>
    rw [hcase] at hinput
    cases hinput
  | cons head tail =>
    rw [hcase] at hinput hclean
    cases head with
    | none => exact absurd List.mem_cons_self hclean
    | some code =>
      rw [List.reduceOption_cons_of_some] at hinput
      obtain ⟨rfl, hrest⟩ := List.cons.inj hinput
      exact ⟨rfl, hrest, fun hnone => hclean (List.mem_cons_of_mem _ hnone)⟩

theorem readBytes_clean {len : ℕ} {input : List (Option UInt8)} (hclean : none ∉ input)
    (hinput : input.reduceOption = bytes ++ rest) (hlen : bytes.length = len) :
    (readBytes len input).1.length = len ∧ none ∉ (readBytes len input).2 := by
  induction bytes generalizing len input with
  | nil =>
    obtain rfl : len = 0 := hlen.symm
    exact ⟨rfl, hclean⟩
  | cons byte bytes ih =>
    obtain ⟨len, rfl⟩ : ∃ fewer, len = fewer + 1 := ⟨bytes.length, hlen.symm⟩
    cases input with
    | nil => cases hinput
    | cons head tail =>
      cases head with
      | none => exact absurd List.mem_cons_self hclean
      | some code =>
        rw [List.reduceOption_cons_of_some] at hinput
        have htail : none ∉ tail := fun hnone => hclean (List.mem_cons_of_mem _ hnone)
        obtain ⟨hread, hleft⟩ := ih htail (List.cons.inj hinput).2 (Nat.succ.inj hlen)
        exact ⟨congrArg (· + 1) hread, hleft⟩

theorem rymReadData_clean {len : ℕ} (hclean : Clean ctx)
    (hinput : ctx.input.reduceOption = bytes ++ rest) (hlen : bytes.length = len) :
    (rymReadData ctx len).2 = len ∧ Clean (rymReadData ctx len).1 :=
  readBytes_clean hclean hinput hlen

/-! ## The parts of the receiver -/

theorem rymDoHandshake_clean {header : Block} {turns : ℕ} (hclean : Clean ctx)
    (hinput : ctx.input.reduceOption = header.bytes 0 ++ rest) :
    (rymDoHandshake acknowledging (turns + 1) ctx).2 = .eok ∧
      Clean (rymDoHandshake acknowledging (turns + 1) ctx).1 := by
  set asking := rymPutchar { ctx with stage := .establishing } rymCodeC with hasking
  have hcode : asking.input.reduceOption = header.size.code :: (header.tail 0 ++ rest) := hinput
  have hcleanAsking : Clean asking := hclean
  obtain ⟨hread, hleft, hcleanRead⟩ := rymReadCode_clean hcleanAsking hcode
  have hloop : handshakeLoop (turns + 1) { ctx with stage := .establishing } =
      ((rymReadCode asking).1, some (1 + 2 + header.size.bytes + 2)) := by
    rw [handshakeLoop, ← hasking, hread]
    cases header.size <;> rfl
  have hlen : 1 + 2 + header.size.bytes + 2 - 1 = 2 + header.size.bytes + 2 := by omega
  have hsz : 1 + 2 + header.size.bytes + 2 - 5 = header.size.bytes := by omega
  have hhigh : 1 + 2 + header.size.bytes + 2 - 2 = 3 + header.size.bytes := by omega
  have hlow : 2 + header.size.bytes + 2 = 4 + header.size.bytes := by omega
  obtain ⟨hfull, hcleanData⟩ := rymReadData_clean hcleanRead hleft (length_tail header 0)
  obtain ⟨hseq, hcomplement, hpayload, hcrc, -⟩ := rymReadData_block rfl hleft hfull
  simp only [rymDoHandshake, hloop, hlen, hsz, hhigh]
  split_ifs with hshort hnumber hword hcan
  · exact absurd hfull hshort
  · rw [hseq, hcomplement] at hnumber
    rcases hnumber with hzero | hinverse
    · exact absurd rfl hzero
    · exact absurd (by decide) hinverse
  · rw [hpayload, ← hcrc, ← hlow] at hword
    exact absurd rfl hword
  · exact absurd rfl hcan
  · exact ⟨rfl, hcleanData⟩

theorem rymTransData_clean {block : Block} {seq code : UInt8} (hclean : Clean ctx)
    (hinput : ctx.input.reduceOption = block.tail seq ++ rest) :
    (rymTransData acknowledging ctx block.size.bytes code).2.1 = .eok ∧
      (rymTransData acknowledging ctx block.size.bytes code).2.2 ≠ rymCodeCan ∧
      Clean (rymTransData acknowledging ctx block.size.bytes code).1 := by
  obtain ⟨hfull, hcleanData⟩ := rymReadData_clean hclean hinput (length_tail block seq)
  obtain ⟨hseq, hcomplement, hpayload, hcrc, -⟩ := rymReadData_block rfl hinput hfull
  have hhigh : 2 + block.size.bytes + 2 - 1 = 3 + block.size.bytes := by omega
  have hlow : 2 + block.size.bytes + 2 = 4 + block.size.bytes := by omega
  have hnone : rymCodeNone ≠ rymCodeCan := by decide
  have hack : rymCodeAck ≠ rymCodeCan := by decide
  simp only [rymTransData]
  split_ifs with hshort hnumber hagain hword
  · exact absurd hfull hshort
  · rw [hseq, hcomplement] at hnumber
    have hlt := seq.toNat_lt
    have hsum : seq.toNat + (255 - seq).toNat = 255 := by
      have hle : seq ≤ 255 := UInt8.le_iff_toNat_le.2 (Nat.le_of_lt_succ hlt)
      rw [UInt8.toNat_sub_of_le _ _ hle]
      exact Nat.add_sub_cancel' (Nat.le_of_lt_succ hlt)
    exact absurd hsum hnumber
  · exact ⟨rfl, hnone, hcleanData⟩
  · change crcWord _ _ ≠ crc16 (copyOut _ 3 block.size.bytes) at hword
    rw [hpayload, ← hcrc, hhigh, hlow] at hword
    exact absurd rfl hword
  · exact ⟨rfl, hack, hcleanData⟩

theorem rymTransTurn_package_clean {block : Block} {seq : UInt8} (hclean : Clean ctx)
    (hinput : ctx.input.reduceOption = block.bytes seq ++ rest) :
    (rymTransTurn acknowledging ctx).2 = .transLoop ∧
      Clean (rymTransTurn acknowledging ctx).1 := by
  have hcode : ctx.input.reduceOption = block.size.code :: (block.tail seq ++ rest) := hinput
  obtain ⟨hread, hleft, hcleanRead⟩ := rymReadCode_clean hclean hcode
  obtain ⟨hok, hnocan, hcleanData⟩ := rymTransData_clean hcleanRead hleft
  rw [rymTransTurn_size hread]
  simp only [rymTransPackage]
  rw [if_neg (not_not.2 hok), if_neg hnocan]
  split_ifs with hack
  · exact ⟨rfl, hcleanData⟩
  · exact ⟨rfl, hcleanData⟩

theorem rymTransTurn_eot_clean (hclean : Clean ctx)
    (hinput : ctx.input.reduceOption = rymCodeEot :: rest) :
    (rymTransTurn callbacks ctx).2 = .fin ∧ Clean (rymTransTurn callbacks ctx).1 := by
  obtain ⟨hread, -, hcleanRead⟩ := rymReadCode_clean hclean hinput
  simp only [rymTransTurn, hread]
  exact ⟨rfl, hcleanRead⟩

theorem rymFinHeader_clean {header : Block} {dataSz : ℕ}
    (hright : header.size = .stx → ¬ header.rejected)
    (hclean : Clean ctx) (hinput : ctx.input.reduceOption = header.tail 0 ++ rest) :
    (rymFinHeader acknowledging ctx dataSz).2 = .eok ∧
      Clean (rymFinHeader acknowledging ctx dataSz).1 := by
  obtain ⟨high, low, more, htail, hlength, hsoh, hstx⟩ := tail_cut header
  have hword : crcWord high low = crc16 (header.payload.take 128) := by
    cases hsize : header.size with
    | soh => rw [(hsoh hsize).2.2, (hsoh hsize).2.1]
    | stx =>
      rw [(hstx hsize).1, (hstx hsize).2]
      exact not_not.1 (hright hsize)
  have hlen : (0 :: 255 :: (header.payload.take 128 ++ [high, low])).length = rymSohPkgSz - 1 := by
    simp [hlength, rymSohPkgSz]
  rw [htail, List.append_assoc] at hinput
  obtain ⟨hfull, hcleanData⟩ := rymReadData_clean hclean hinput hlen
  obtain ⟨hbuf, -⟩ := rymReadData_spec hinput hlen hfull
  obtain ⟨hseq, hcomplement, hpayload, hhigh, hlow⟩ := copyOut_package hlength hbuf
  simp only [rymFinHeader]
  split_ifs with hshort hnumber hcrc hnext hcan
  · exact absurd hfull hshort
  · rw [hseq, hcomplement] at hnumber
    rcases hnumber with hzero | hinverse
    · exact absurd rfl hzero
    · exact absurd rfl hinverse
  · change crcWord (RymCtx.buf _ (3 + 128)) (RymCtx.buf _ (4 + 128)) ≠
      crc16 (copyOut _ 3 128) at hcrc
    rw [hpayload, hhigh, hlow] at hcrc
    exact absurd hword hcrc
  · exact absurd rfl hcan
  · exact ⟨rfl, hcleanData⟩
  · exact ⟨rfl, hcleanData⟩

theorem rymDoFin_clean {header : Block} (hright : header.size = .stx → ¬ header.rejected)
    (hclean : Clean ctx)
    (hinput : ctx.input.reduceOption = rymCodeEot :: (header.bytes 0 ++ rest)) :
    (rymDoFin acknowledging ctx).2 = .eok ∧ Clean (rymDoFin acknowledging ctx).1 := by
  set ended : RymCtx := rymPutchar { ctx with
    stage := .finishing
    calls := ctx.calls ++ [.onEnd (copyOut ctx.buf 3 128)] } rymCodeNak with hended
  have hcleanEnded : Clean ended := hclean
  obtain ⟨hread, hleft, hcleanRead⟩ := rymReadCode_clean hcleanEnded hinput
  set second : RymCtx :=
    rymPutchar (rymPutchar (rymReadCode ended).1 rymCodeAck) rymCodeC with hsecond
  have hcode : second.input.reduceOption = header.size.code :: (header.tail 0 ++ rest) := hleft
  have hcleanAsked : Clean second := hcleanRead
  obtain ⟨hsize, hrest, hcleanSecond⟩ := rymReadCode_clean hcleanAsked hcode
  simp only [rymDoFin, ← hended]
  rw [if_neg (not_not.2 hread), hsize]
  cases header.size with
  | soh => exact rymFinHeader_clean hright hcleanSecond hrest
  | stx => exact rymFinHeader_clean hright hcleanSecond hrest

theorem crc16_zeros (len : ℕ) : crc16 (List.replicate len 0) = 0 := by
  have hturn : ((0 : UInt16) <<< 8) ^^^
      ccittTable.getD ((((0 : UInt16) >>> 8) ^^^ (0 : UInt8).toUInt16) &&& 0xff).toNat 0 = 0 := by
    decide +kernel
  rw [crc16]
  induction len with
  | zero => rfl
  | succ len ih =>
    rw [List.replicate_succ, List.foldl_cons, hturn, ih]

theorem nullBlock_right : ¬ (nullBlock .stx).rejected := by
  have hfront : (nullBlock .stx).payload.take 128 = List.replicate 128 0 :=
    List.take_replicate
  have hhigh : (nullBlock .stx).payload.getD 128 0 = 0 := rfl
  have hlow : (nullBlock .stx).payload.getD 129 0 = 0 := rfl
  rw [Block.rejected, hfront, crc16_zeros, hhigh, hlow]
  exact fun hwrong => hwrong rfl

/-! ## A transfer goes on to its end -/

/-- On a line that is read without a time-out, and not ended by an error. -/
def Going : RymCtx × Pc → Prop
  | (ctx, .handshake turns) => Clean ctx ∧ turns ≠ 0
  | (_, .done err) => err = .eok
  | (ctx, _) => Clean ctx

def remaining : RymCtx × Pc → ℕ
  | (_, .done _) => 0
  | (ctx, .trans) => 2 * ctx.input.reduceOption.length + 2
  | (ctx, _) => 2 * ctx.input.reduceOption.length + 1

/-- What a part of the transfer that goes on leads to. -/
structure Onward (st next : RymCtx × Pc) : Prop where
  going : Going next
  fewer : remaining next < remaining st

theorem length_left {bytes : List UInt8} {seq : UInt8} {block : Block}
    (hinput : ctx.input.reduceOption = block.bytes seq ++ bytes) :
    bytes.length < ctx.input.reduceOption.length := by
  rw [hinput, List.length_append, Block.bytes, List.length_cons]
  omega

theorem onward_handshake {turns : ℕ} (hfiles : session.files ≠ [])
    (hfollows : Follows session (ctx, .handshake turns)) (hgoing : Going (ctx, .handshake turns)) :
    Onward (ctx, .handshake turns) ((rymDoHandshake acknowledging turns ctx).1,
      proceed .trans (rymDoHandshake acknowledging turns ctx).2) := by
  obtain ⟨hinput, -⟩ := hfollows
  obtain ⟨hclean, hturns⟩ := hgoing
  obtain ⟨fewer, rfl⟩ := Nat.exists_eq_succ_of_ne_zero hturns
  obtain ⟨file, later, heq⟩ := List.exists_cons_of_ne_nil hfiles
  have hbytes : ctx.input.reduceOption =
      file.header.bytes 0 ++ (file.body ++ session.from later) := by
    rw [hinput, Session.bytes, heq]
    simp only [Session.from, List.flatMap_cons, File.bytes, List.append_assoc]
  obtain ⟨hok, hcleanAfter⟩ := @rymDoHandshake_clean ctx _ _ fewer hclean hbytes
  obtain ⟨-, hleft⟩ := rymDoHandshake_spec hbytes hok
  have hshorter := length_left hbytes
  rw [hok]
  refine ⟨hcleanAfter, ?_⟩
  change 2 * List.length _ + 2 < 2 * List.length _ + 1
  rw [hleft]
  omega

theorem onward_trans (hgoing : Going (ctx, .trans)) :
    Onward (ctx, .trans)
      ({ rymPutchar (rymPutchar ctx rymCodeAck) rymCodeC with stage := .established },
        .transLoop) :=
  ⟨hgoing, Nat.lt_succ_self _⟩

theorem onward_of_pc {st after : RymCtx × Pc} {pc : Pc} (hpc : after.2 = pc)
    (honward : Onward st (after.1, pc)) : Onward st after := by
  subst hpc
  exact honward

theorem Reading.next {past later : List File} {file : File} {headers : ℕ}
    {before after : List (UInt8 × Block)}
    (hreading : Reading session ctx past file later headers before after) :
    (∃ block seq rest, ctx.input.reduceOption = Block.bytes block seq ++ rest) ∨
      ∃ rest, ctx.input.reduceOption = rymCodeEot :: rest := by
  have hinput := hreading.input
  cases headers with
  | succ headers =>
    rw [again_succ, List.append_assoc, List.append_assoc, List.append_assoc] at hinput
    exact Or.inl ⟨_, _, _, hinput⟩
  | zero =>
    cases after with
    | cons package after =>
      rw [lineOf_cons, List.append_assoc, List.append_assoc, List.append_assoc] at hinput
      exact Or.inl ⟨_, _, _, hinput⟩
    | nil => exact Or.inr ⟨_, hinput⟩

theorem onward_loop (hfollows : Follows session (ctx, .transLoop))
    (hgoing : Going (ctx, .transLoop)) :
    Onward (ctx, .transLoop) (rymTransTurn acknowledging ctx) := by
  obtain ⟨past, file, later, headers, before, after, hreading⟩ := hfollows
  have hclean : Clean ctx := hgoing
  rcases hreading.next with ⟨block, seq, rest, hinput⟩ | ⟨rest, hinput⟩
  · obtain ⟨hloop, hcleanAfter⟩ := rymTransTurn_package_clean hclean hinput
    have hshorter := length_left hinput
    rcases @rymTransTurn_package acknowledging ctx rest block seq hinput with
      ⟨err, -, hdone⟩ | ⟨-, hleft, -⟩
    · rw [hloop] at hdone
      cases hdone
    · refine onward_of_pc hloop ⟨hcleanAfter, ?_⟩
      change 2 * List.length _ + 1 < 2 * List.length _ + 1
      rw [hleft]
      omega
  · obtain ⟨hfin, hcleanAfter⟩ := @rymTransTurn_eot_clean acknowledging ctx rest hclean hinput
    rcases @rymTransTurn_eot acknowledging ctx rest hinput with hdone | ⟨-, hleft, -⟩
    · rw [hfin] at hdone
      cases hdone
    · refine onward_of_pc hfin ⟨hcleanAfter, ?_⟩
      change 2 * List.length _ + 1 < 2 * List.length _ + 1
      rw [hleft, hinput, List.length_cons]
      omega

theorem onward_fin (hsmall : ∀ other ∈ session.files.tail, other.header.size = .soh)
    (hfollows : Follows session (ctx, .fin)) (hgoing : Going (ctx, .fin)) :
    Onward (ctx, .fin) ((rymDoFin acknowledging ctx).1,
      proceed (if (rymDoFin acknowledging ctx).1.stage = .finished then .done .eok else .trans)
        (rymDoFin acknowledging ctx).2) := by
  obtain ⟨past, file, later, hreached, hinput, -⟩ := hfollows
  have hclean : Clean ctx := hgoing
  cases later with
  | nil =>
    have hright : (nullBlock session.nullSize).size = .stx →
        ¬ (nullBlock session.nullSize).rejected := by
      intro hstx
      have hsize : session.nullSize = .stx := hstx
      rw [hsize]
      exact nullBlock_right
    obtain ⟨hok, -⟩ := rymDoFin_clean hright hclean hinput
    obtain ⟨hstage, -⟩ := rymDoFin_null hinput hok
    rw [hok, hstage, if_pos rfl]
    exact ⟨rfl, Nat.succ_pos _⟩
  | cons next later =>
    have hsoh : next.header.size = .soh := by
      refine hsmall next ?_
      rw [hreached.files_eq]
      cases past <;> simp
    have hright : next.header.size = .stx → ¬ next.header.rejected := by
      rw [hsoh]
      intro hstx
      cases hstx
    have hbytes : ctx.input.reduceOption =
        rymCodeEot :: (next.header.bytes 0 ++ (next.body ++ session.from later)) := by
      rw [hinput]
      simp only [Session.from, List.flatMap_cons, File.bytes, List.append_assoc]
    obtain ⟨hok, hcleanAfter⟩ := rymDoFin_clean hright hclean hbytes
    obtain ⟨-, hstage, -, hleft⟩ :=
      rymDoFin_header next.named (fun hstx => by rw [hsoh] at hstx; cases hstx) hbytes hok
    rw [hok, hstage, if_neg (by simp)]
    refine ⟨hcleanAfter, ?_⟩
    have hlength : (next.header.bytes 0 ++ (next.body ++ session.from later)).length =
        (next.header.bytes 0).length + (next.body ++ session.from later).length :=
      List.length_append
    change 2 * List.length _ + 2 < 2 * List.length _ + 1
    rw [hleft, hbytes, List.length_cons, hlength]
    omega

theorem step_onward {st : RymCtx × Pc} (hfiles : session.files ≠ [])
    (hsmall : ∀ other ∈ session.files.tail, other.header.size = .soh)
    (hfollows : Follows session st) (hgoing : Going st) :
    st.2 = .done .eok ∨ ∃ next, step acknowledging st () = some (next, ()) ∧
      Onward st next := by
  obtain ⟨ctx, pc⟩ := st
  cases pc with
  | handshake turns => exact Or.inr ⟨_, rfl, onward_handshake hfiles hfollows hgoing⟩
  | trans => exact Or.inr ⟨_, rfl, onward_trans hgoing⟩
  | transLoop => exact Or.inr ⟨_, rfl, onward_loop hfollows hgoing⟩
  | fin => exact Or.inr ⟨_, rfl, onward_fin hsmall hfollows hgoing⟩
  | done err =>
    have herr : err = .eok := hgoing
    exact Or.inl (congrArg _ herr)

theorem exists_run {st : RymCtx × Pc} (hfiles : session.files ≠ [])
    (hsmall : ∀ other ∈ session.files.tail, other.header.size = .soh)
    (hfollows : Follows session st) (hgoing : Going st) :
    ∃ trace ctx, (machine acknowledging).Run st trace (ctx, .done .eok) := by
  have hreadable : Readable session.files.tail := by
    intro file hfile hstx
    rw [hsmall file hfile] at hstx
    cases hstx
  generalize hbound : remaining st = bound
  induction bound using Nat.strong_induction_on generalizing st with
  | _ bound ih =>
    rcases step_onward hfiles hsmall hfollows hgoing with hdone | ⟨next, hstep, honward⟩
    · refine ⟨[], st.1, ?_⟩
      rw [← hdone]
      exact .nil st
    · have hnext := step_follows hfiles hreadable hfollows hstep
      obtain ⟨trace, ctx, hrun⟩ :=
        ih (remaining next) (hbound ▸ honward.fewer) hnext honward.going rfl
      exact ⟨_, ctx, .cons trivial hstep hrun⟩

/-! ## What was sent again -/

theorem delivered_of_sentOnce {file : File} (honce : ∀ package ∈ file.packages, package.2 = 0) :
    file.delivered = file.transfers := by
  rw [File.delivered, File.transfers, File.sent]
  generalize (1 : UInt8) = seq
  generalize file.packages = packages at honce ⊢
  induction packages generalizing seq with
  | nil => rfl
  | cons package rest ih =>
    obtain ⟨block, repeats⟩ := package
    obtain rfl : repeats = 0 := honce (block, repeats) List.mem_cons_self
    have hrest := ih (seq + 1) fun other hother => honce other (List.mem_cons_of_mem _ hother)
    rw [sentFrom, List.map_cons, ← (List.cons.inj hrest).2]
    rfl

theorem length_sentFrom (seq : UInt8) (packages : List (Block × ℕ)) :
    packages.length ≤ (sentFrom seq packages).length ∧
      ((sentFrom seq packages).length = packages.length → ∀ package ∈ packages, package.2 = 0) := by
  induction packages generalizing seq with
  | nil => exact ⟨Nat.le_refl _, fun _ => nofun⟩
  | cons package rest ih =>
    obtain ⟨block, repeats⟩ := package
    obtain ⟨hle, honce⟩ := ih (seq + 1)
    rw [sentFrom, List.length_append, List.length_replicate, List.length_cons]
    refine ⟨by omega, fun hlength => ?_⟩
    have hrest : (sentFrom (seq + 1) rest).length = rest.length := by omega
    rw [List.forall_mem_cons]
    exact ⟨by omega, honce hrest⟩

theorem length_delivered (files : List File) :
    (files.flatMap File.transfers).length ≤ (files.flatMap File.delivered).length ∧
      ((files.flatMap File.delivered).length = (files.flatMap File.transfers).length →
        SentOnce files) := by
  induction files with
  | nil => exact ⟨Nat.le_refl _, fun _ => nofun⟩
  | cons file files ih =>
    obtain ⟨hle, honce⟩ := ih
    obtain ⟨hleFile, honceFile⟩ := length_sentFrom 1 file.packages
    have htransfers : file.transfers.length = file.packages.length + 1 := by
      rw [File.transfers, List.length_cons, List.length_map]
    have hdelivered : file.delivered.length = (sentFrom 1 file.packages).length + 1 := by
      rw [File.delivered, List.length_cons, List.length_map, File.sent]
    rw [List.flatMap_cons, List.flatMap_cons, List.length_append, List.length_append, htransfers,
      hdelivered]
    refine ⟨by omega, fun hlength => ?_⟩
    rw [SentOnce, List.forall_mem_cons]
    exact ⟨honceFile (by omega), honce (by omega)⟩

theorem delivered_eq_iff (files : List File) :
    files.flatMap File.delivered = files.flatMap File.transfers ↔ SentOnce files := by
  constructor
  · exact fun heq => (length_delivered files).2 (congrArg List.length heq)
  · intro honce
    induction files with
    | nil => rfl
    | cons file files ih =>
      rw [SentOnce, List.forall_mem_cons] at honce
      rw [List.flatMap_cons, List.flatMap_cons, delivered_of_sentOnce honce.1, ih honce.2]

/-- What a transfer that ends well gave to the application. -/
theorem given_of_run {input : List (Option UInt8)} {buf : ℕ → UInt8} {handshakeTimeout : ℕ}
    {trace : List (Unit × Unit)} (hreadable : Readable session.files.tail)
    (hinput : input.reduceOption = session.bytes)
    (hrun : (machine callbacks).Run (start input buf handshakeTimeout) trace (ctx, .done .eok)) :
    ctx.given = session.files.flatMap File.delivered ∧
      ∀ other ∈ session.files.tail, other.header.size = .soh := by
  by_cases hfiles : session.files = []
  · have hfirst : Stuck session (start input buf handshakeTimeout) := hinput
    have hstuck : Stuck session (ctx, .done .eok) :=
      hrun.invariant (Stuck session)
        (fun _ _ _ _ hstuck _ hstep => step_stuck hfiles hstuck hstep) hfirst
    exact absurd rfl hstuck
  · have hfirst : Follows session (start input buf handshakeTimeout) := ⟨hinput, rfl⟩
    have hfollows : Follows session (ctx, .done .eok) :=
      hrun.invariant (Follows session)
        (fun _ _ _ _ hfollows _ hstep => step_follows hfiles hreadable hfollows hstep) hfirst
    exact hfollows rfl

/-- A transfer whose later header blocks are small ones has a run that ends well. -/
theorem exists_run_of_small (hfiles : session.files ≠ [])
    (hsmall : ∀ other ∈ session.files.tail, other.header.size = .soh) :
    ∃ input trace ctx, input.reduceOption = session.bytes ∧
      (machine acknowledging).Run (start input (fun _ => 0) 1) trace (ctx, .done .eok) := by
  have hinput : (session.bytes.map some).reduceOption = session.bytes := by
    simp [List.reduceOption]
  have hclean : none ∉ session.bytes.map some := by simp
  have hfollows : Follows session (start (session.bytes.map some) (fun _ => 0) 1) := ⟨hinput, rfl⟩
  have hgoing : Going (start (session.bytes.map some) (fun _ => 0) 1) :=
    ⟨hclean, Nat.one_ne_zero⟩
  obtain ⟨trace, ctx, hrun⟩ := exists_run hfiles hsmall hfollows hgoing
  exact ⟨_, trace, ctx, hinput, hrun⟩

theorem sentOnce_of_intact (hintact : Intact session)
    (hsmall : ∀ other ∈ session.files.tail, other.header.size = .soh) :
    SentOnce session.files := by
  by_cases hfiles : session.files = []
  · rw [hfiles]
    exact nofun
  · have hreadable : Readable session.files.tail := by
      intro file hfile hstx
      rw [hsmall file hfile] at hstx
      cases hstx
    obtain ⟨input, trace, ctx, hinput, hrun⟩ := exists_run_of_small hfiles hsmall
    rw [← delivered_eq_iff, ← (given_of_run hreadable hinput hrun).1]
    exact hintact _ _ _ _ _ _ hinput hrun

/-- Where every later header block is a small one or is rejected, a transfer is handed over as it
was sent exactly when it cannot end well or no data package is sent again. -/
theorem ymodem_intact (session : Session) (hreadable : Readable session.files.tail) :
    Intact session ↔
      (∃ other ∈ session.files.tail, other.header.size = .stx) ∨ SentOnce session.files := by
  constructor
  · intro hintact
    by_cases hsmall : ∀ other ∈ session.files.tail, other.header.size = .soh
    · exact Or.inr (sentOnce_of_intact hintact hsmall)
    · left
      push Not at hsmall
      obtain ⟨other, hother, hsize⟩ := hsmall
      refine ⟨other, hother, ?_⟩
      cases hcase : other.header.size with
      | soh => exact absurd hcase hsize
      | stx => rfl
  · intro hcondition callbacks input buf handshakeTimeout trace ctx hinput hrun
    obtain ⟨hgiven, hsmall⟩ := given_of_run hreadable hinput hrun
    rcases hcondition with ⟨other, hother, hsize⟩ | honce
    · rw [hsmall other hother] at hsize
      cases hsize
    · exact hgiven.trans ((delivered_eq_iff session.files).2 honce)

/-- A file called `a` of one package, which is sent `repeats` times more. -/
def onePackage (repeats : ℕ) : Session where
  files := [{
    header := ⟨.soh, 0x61 :: List.replicate 127 0, rfl⟩
    named := by
      intro byte hbyte
      obtain rfl : byte = 0x61 := (Option.some.inj hbyte).symm
      decide
    repeats := 0
    packages := [(⟨.soh, List.replicate 128 0x1a, rfl⟩, repeats)] }]
  nullSize := .soh
  nullRepeats := 0

theorem ymodem_intact_onePackage : Intact (onePackage 0) := by
  refine (ymodem_intact (onePackage 0) nofun).2 (Or.inr ?_)
  intro file hfile package hpackage
  obtain rfl := List.mem_singleton.1 hfile
  obtain rfl := List.mem_singleton.1 hpackage
  rfl

/-- A package whose acknowledge was lost is handed over twice. -/
theorem ymodem_package_twice : ¬ Intact (onePackage 1) := by
  intro hintact
  have honce := sentOnce_of_intact hintact nofun _ List.mem_cons_self _ List.mem_cons_self
  exact Nat.one_ne_zero honce

end RtThread.Ymodem
