import RtThread.Dfs.Poll

set_option linter.all false

/-!
# Selecting descriptors

`select.c`: the descriptors of three sets are folded into one list for `poll`, and what `poll`
reports is unfolded into the sets again.  The sets are cleared in between, so that the unfolding
does not know any more which of them had asked for a descriptor: `POLLHUP` puts it into the read
set and `POLLERR` into the exception set, whichever set it came from.
-/

namespace RtThread.Select

open RtThread.Core
open RtThread.Poll
open RtThread.WaitQueue (rtTickFromMillisecond)

/-- `readfds`, `writefds` and `exceptfds`. -/
inductive Kind
  | read | write | except
  deriving DecidableEq

/-- The bits that are set; `none` for a null pointer. -/
abbrev FdSets := Kind → Option (Finset ℕ)

/-- `set && FD_ISSET(fd, set)`. -/
def isset (set : Option (Finset ℕ)) (fd : ℕ) : Bool :=
  match set with
  | none => false
  | some members => fd ∈ members

/-- Some set asks for the descriptor. -/
def wanted (sets : FdSets) (fd : ℕ) : Bool :=
  isset (sets .read) fd || isset (sets .write) fd || isset (sets .except) fd

def events (sets : FdSets) (fd : ℕ) : BitVec 16 :=
  (if isset (sets .read) fd = true then pollin else 0) |||
    (if isset (sets .write) fd = true then pollout else 0)

/-- How many descriptors are counted for the allocation. -/
def npfds (nfds : ℤ) (sets : FdSets) : ℕ :=
  (List.range nfds.toNat).countP (wanted sets)

def pollset (nfds : ℤ) (sets : FdSets) : List Pollfd :=
  ((List.range nfds.toNat).filter (wanted sets)).map fun fd : ℕ => ⟨fd, events sets fd, 0⟩

/-- Where `fdszero` ends: it clears masks of `nfdbits` bits up to `nfds`. -/
def cleared (nfdbits : ℕ) (nfds : ℤ) : ℕ :=
  (nfds.toNat + nfdbits - 1) / nfdbits * nfdbits

def fdszero (nfdbits : ℕ) (set : Finset ℕ) (nfds : ℤ) : Finset ℕ :=
  set.filter fun fd => cleared nfdbits nfds ≤ fd

/-- The timeout in milliseconds, as an `int`, from seconds and microseconds. -/
def selectMsec (timeout : Option (ℤ × ℤ)) : ℤ :=
  match timeout with
  | some (sec, usec) => (sec * 1000 + usec.tdiv 1000).bmod (2 ^ 32)
  | none => -1

/-- The conditions that go into a set. -/
def reported : Kind → BitVec 16
  | .read => pollin ||| pollhup
  | .write => pollout
  | .except => pollerr

/-- The descriptor is put into the set, if there is one. -/
def Hit (kind : Kind) (pollfd : Pollfd) : Prop :=
  pollfd.revents &&& reported kind ≠ 0

instance (kind : Kind) : DecidablePred (Hit kind) :=
  fun _ => inferInstanceAs (Decidable (_ ≠ _))

/-- One descriptor and one set; `ret` is counted in the second component. -/
def convert (result : FdSets × ℤ) (pollfd : Pollfd) (kind : Kind) : FdSets × ℤ :=
  match result.1 kind with
  | none => result
  | some set =>
    if Hit kind pollfd then
      (Function.update result.1 kind (some (insert pollfd.fd.toNat set)), result.2 + 1)
    else result

def convertAll (result : FdSets × ℤ) (pollfd : Pollfd) : FdSets × ℤ :=
  convert (convert (convert result pollfd .read) pollfd .write) pollfd .except

/-- `select`, where `outcome` is what `poll` leaves in the list and what it returns; `none` when
the list could not be allocated. -/
def select (nfdbits : ℕ) (nfds : ℤ) (sets : FdSets) (outcome : Option (List Pollfd × ℕ)) :
    FdSets × ℤ :=
  match outcome with
  | none => (sets, -1)
  | some (polled, num) =>
    let zeroed : FdSets := fun kind => (sets kind).map fun set => fdszero nfdbits set nfds
    if 0 < num then polled.foldl convertAll (zeroed, 0) else (zeroed, num)

theorem length_pollset (nfds : ℤ) (sets : FdSets) :
    (pollset nfds sets).length = npfds nfds sets := by
  rw [pollset, List.length_map, npfds, List.countP_eq_length_filter]

/-! ## What is put into the sets -/

/-- The descriptors that are put into a set. -/
def hits (polled : List Pollfd) (kind : Kind) : List ℕ :=
  (polled.filter (Hit kind)).map fun pollfd => pollfd.fd.toNat

/-- How often a set counts for the result. -/
def found (set : Option (Finset ℕ)) (members : List ℕ) : ℕ :=
  if set.isSome = true then members.length else 0

theorem hits_cons (pollfd : Pollfd) (polled : List Pollfd) (kind : Kind) :
    hits (pollfd :: polled) kind = hits [pollfd] kind ++ hits polled kind := by
  by_cases hhit : Hit kind pollfd <;> simp [hits, hhit]

theorem hits_singleton (pollfd : Pollfd) (kind : Kind) :
    hits [pollfd] kind = if Hit kind pollfd then [pollfd.fd.toNat] else [] := by
  by_cases hhit : Hit kind pollfd <;> simp [hits, hhit]

theorem convert_fst (result : FdSets × ℤ) (pollfd : Pollfd) (kind other : Kind) :
    (convert result pollfd kind).1 other =
      if other = kind then (result.1 kind).map fun set => set ∪ (hits [pollfd] kind).toFinset
      else result.1 other := by
  rw [convert, hits_singleton]
  by_cases hkind : other = kind
  · subst hkind
    rw [if_pos rfl]
    cases hset : result.1 other with
    | none => exact hset
    | some set =>
      by_cases hhit : Hit other pollfd
      · simp [hhit]
      · simp [hhit, hset]
  · rw [if_neg hkind]
    split
    · rfl
    · split
      · exact Function.update_of_ne hkind _ _
      · rfl

theorem convert_snd (result : FdSets × ℤ) (pollfd : Pollfd) (kind : Kind) :
    (convert result pollfd kind).2 =
      result.2 + found (result.1 kind) (hits [pollfd] kind) := by
  rw [convert, found, hits_singleton]
  cases hset : result.1 kind with
  | none => simp
  | some set => by_cases hhit : Hit kind pollfd <;> simp [hhit]

theorem convertAll_eq (result : FdSets × ℤ) (pollfd : Pollfd) :
    (∀ kind, (convertAll result pollfd).1 kind =
      (result.1 kind).map fun set => set ∪ (hits [pollfd] kind).toFinset) ∧
    (convertAll result pollfd).2 = result.2 +
      (found (result.1 .read) (hits [pollfd] .read) +
        found (result.1 .write) (hits [pollfd] .write) +
        found (result.1 .except) (hits [pollfd] .except)) := by
  refine ⟨fun kind => ?_, ?_⟩
  · cases kind <;> simp [convertAll, convert_fst]
  · simp only [convertAll, convert_snd, convert_fst, reduceCtorEq, if_false]
    ring

theorem foldl_convertAll (polled : List Pollfd) (result : FdSets × ℤ) :
    (∀ kind, (polled.foldl convertAll result).1 kind =
      (result.1 kind).map fun set => set ∪ (hits polled kind).toFinset) ∧
    (polled.foldl convertAll result).2 = result.2 +
      (found (result.1 .read) (hits polled .read) +
        found (result.1 .write) (hits polled .write) +
        found (result.1 .except) (hits polled .except)) := by
  induction polled generalizing result with
  | nil =>
    refine ⟨fun kind => ?_, by simp [hits, found]⟩
    simp [hits]
  | cons pollfd polled ih =>
    obtain ⟨hsets, hret⟩ := convertAll_eq result pollfd
    obtain ⟨hsets', hret'⟩ := ih (convertAll result pollfd)
    have hfound : ∀ kind, found (result.1 kind) (hits (pollfd :: polled) kind) =
        found (result.1 kind) (hits [pollfd] kind) +
          found ((convertAll result pollfd).1 kind) (hits polled kind) := by
      intro kind
      rw [hits_cons, hsets kind, found, found, found, Option.isSome_map]
      split
      · exact List.length_append
      · rfl
    rw [List.foldl_cons]
    refine ⟨fun kind => ?_, ?_⟩
    · rw [hsets' kind, hsets kind, Option.map_map, hits_cons pollfd polled]
      congr 1
      funext set
      simp [List.toFinset_append, Finset.union_assoc]
    · rw [hret', hret, hfound, hfound, hfound]
      push_cast
      ring

/-! ## What is reported -/

variable {sets : FdSets} {nfds : ℤ} {polled : List Pollfd} {num : ℕ}

theorem and_twoPow_ne_zero (flags : BitVec 16) {bit : ℕ} (hbit : bit < 16) :
    flags &&& BitVec.twoPow 16 bit ≠ 0 ↔ flags.getLsbD bit = true := by
  have hne : BitVec.twoPow 16 bit ≠ 0 := by
    intro hzero
    have hset := congrArg (fun flags => flags.getLsbD bit) hzero
    simp [hbit] at hset
  rw [BitVec.and_twoPow]
  cases flags.getLsbD bit with
  | false => simp
  | true => exact iff_of_true hne rfl

/-- Besides errors, a file only reports what it was asked for. -/
theorem getLsbD_revents {pollfd : Pollfd} {answer : FdAnswer} {bit : ℕ} (hbit : bit < 16)
    (hset : (doPollfd pollfd answer).1.revents.getLsbD bit = true) :
    (pollfd.events ||| pollerr ||| pollhup).getLsbD bit = true ∨ bit = 4 := by
  have hrequested : (requested pollfd).getLsbD bit =
      (pollfd.events ||| pollerr ||| pollhup).getLsbD bit := by
    rw [requested, BitVec.getLsbD_signExtend, if_pos hbit]
    simp [show bit < 32 by omega]
  unfold doPollfd at hset
  rw [BitVec.getLsbD_setWidth] at hset
  split at hset
  · simp at hset
  · split at hset
    · right
      have hmember : bit ∈ (List.range 16).filter fun bit =>
          (pollnval.signExtend 32).getLsbD bit := by
        rw [List.mem_filter]
        exact ⟨List.mem_range.2 hbit, by simpa [hbit] using hset⟩
      simpa [show ((List.range 16).filter fun bit => (pollnval.signExtend 32).getLsbD bit) = [4]
        by decide] using hmember
    · left
      rw [BitVec.getLsbD_and, hrequested] at hset
      simp only [Bool.and_eq_true] at hset
      exact hset.2.2
    · left
      rw [BitVec.getLsbD_and, hrequested] at hset
      simp only [Bool.and_eq_true] at hset
      exact hset.2.2

theorem getLsbD_events (sets : FdSets) (fd : ℕ) :
    ((events sets fd ||| pollerr ||| pollhup).getLsbD 0 = isset (sets .read) fd) ∧
      ((events sets fd ||| pollerr ||| pollhup).getLsbD 1 = isset (sets .write) fd) := by
  rw [events]
  cases isset (sets .read) fd <;> cases isset (sets .write) fd <;> decide

theorem exists_of_mem_polled
    (hrequest : polled.map Pollfd.request = (pollset nfds sets).map Pollfd.request)
    (hreported : Reported (pollset nfds sets) polled (pollset nfds sets).length num)
    {pollfd : Pollfd} (hmem : pollfd ∈ polled) :
    ∃ fd : ℕ, pollfd.fd = fd ∧ ∃ answer, pollfd = (doPollfd ⟨fd, events sets fd, 0⟩ answer).1 ∧
      (num = 0 → (doPollfd ⟨fd, events sets fd, 0⟩ answer).2 = 0) := by
  have hlength : polled.length = (pollset nfds sets).length := by
    simpa using congrArg List.length hrequest
  obtain ⟨index, hindex, heq⟩ := List.mem_iff_getElem.1 hmem
  rw [hlength] at hindex
  obtain ⟨answer, hpolled, hzero⟩ := hreported index hindex _ (List.getElem?_eq_getElem hindex)
  rw [List.getElem?_eq_getElem (hlength ▸ hindex), heq, Option.some.injEq] at hpolled
  obtain ⟨fd, -, hfd⟩ := List.mem_map.1 (List.getElem_mem hindex)
  rw [← hfd] at hpolled hzero
  exact ⟨fd, by rw [hpolled]; rfl, answer, hpolled, hzero⟩

theorem map_polled
    (hrequest : polled.map Pollfd.request = (pollset nfds sets).map Pollfd.request) :
    polled.map (fun pollfd => pollfd.fd.toNat) =
      (List.range nfds.toNat).filter (wanted sets) := by
  have hfds := congrArg (List.map fun request : ℤ × BitVec 16 => request.1.toNat) hrequest
  rw [List.map_map, List.map_map, pollset, List.map_map] at hfds
  calc
    polled.map (fun pollfd => pollfd.fd.toNat) = _ := hfds
    _ = ((List.range nfds.toNat).filter (wanted sets)).map id := rfl
    _ = (List.range nfds.toNat).filter (wanted sets) := List.map_id _

theorem hits_sublist (polled : List Pollfd) (kind : Kind) :
    List.Sublist (hits polled kind) (polled.map fun pollfd => pollfd.fd.toNat) :=
  List.filter_sublist.map _

theorem le_cleared {nfdbits : ℕ} (hbits : 0 < nfdbits) (nfds : ℤ) :
    nfds.toNat ≤ cleared nfdbits nfds := by
  have hdivision := Nat.div_add_mod' (nfds.toNat + nfdbits - 1) nfdbits
  have hrest := Nat.mod_lt (nfds.toNat + nfdbits - 1) hbits
  rw [cleared]
  omega

/-- A set is counted once for each descriptor that is put into it. -/
theorem card_union_hits {nfdbits : ℕ} (hbits : 0 < nfdbits)
    (hrequest : polled.map Pollfd.request = (pollset nfds sets).map Pollfd.request)
    (set : Finset ℕ) (kind : Kind) :
    (fdszero nfdbits set nfds ∪ (hits polled kind).toFinset).card =
      (fdszero nfdbits set nfds).card + (hits polled kind).length := by
  have hsub := hits_sublist polled kind
  rw [map_polled hrequest] at hsub
  have hnodup : (hits polled kind).Nodup := (List.nodup_range.filter _).sublist hsub
  rw [Finset.card_union_of_disjoint, List.toFinset_card_of_nodup hnodup]
  refine Finset.disjoint_left.2 fun fd hhigh hhit => ?_
  have hlow := List.mem_range.1 (List.mem_of_mem_filter (hsub.subset (List.mem_toFinset.1 hhit)))
  have hcleared := (Finset.mem_filter.1 hhigh).2
  have hle := le_cleared hbits nfds
  omega

/-- Nothing was reported, and nothing is put into the sets. -/
theorem hits_of_none
    (hrequest : polled.map Pollfd.request = (pollset nfds sets).map Pollfd.request)
    (hreported : Reported (pollset nfds sets) polled (pollset nfds sets).length 0) (kind : Kind) :
    hits polled kind = [] := by
  rw [hits, List.map_eq_nil_iff, List.filter_eq_nil_iff]
  intro pollfd hmem hhit
  obtain ⟨fd, -, answer, heq, hzero⟩ := exists_of_mem_polled hrequest hreported hmem
  have hrevents : pollfd.revents = 0 := by
    rw [heq]
    exact congrArg (BitVec.setWidth 16) (hzero rfl)
  simp [Hit, hrevents] at hhit

/-- What the call returns, whether the loop was run or not. -/
theorem select_eq (nfdbits : ℕ)
    (hrequest : polled.map Pollfd.request = (pollset nfds sets).map Pollfd.request)
    (hreported : Reported (pollset nfds sets) polled (pollset nfds sets).length num) :
    (∀ kind, (select nfdbits nfds sets (some (polled, num))).1 kind =
      (sets kind).map fun set => fdszero nfdbits set nfds ∪ (hits polled kind).toFinset) ∧
    (select nfdbits nfds sets (some (polled, num))).2 =
      (found (sets .read) (hits polled .read) + found (sets .write) (hits polled .write) +
        found (sets .except) (hits polled .except) : ℕ) := by
  obtain ⟨hsets, hret⟩ := foldl_convertAll polled
    ((fun kind => (sets kind).map fun set => fdszero nfdbits set nfds : FdSets), (0 : ℤ))
  rw [select]
  by_cases hnum : 0 < num
  · rw [if_pos hnum]
    refine ⟨fun kind => ?_, ?_⟩
    · rw [hsets kind, Option.map_map]
      rfl
    · rw [hret]
      simp [found, Option.isSome_map]
  · obtain rfl : num = 0 := Nat.eq_zero_of_not_pos hnum
    rw [if_neg hnum]
    refine ⟨fun kind => ?_, ?_⟩
    · rw [hits_of_none hrequest hreported kind]
      simp
    · simp [hits_of_none hrequest hreported, found]

/-! ## The sets and the result -/

/-- How many bits are set. -/
def count (set : Option (Finset ℕ)) : ℕ :=
  set.elim 0 Finset.card

/-- Each set that is returned is a subset of the one that was given, and the result is the number
of bits that are set in the three of them. -/
structure Respects (sets after : FdSets) (ret : ℤ) : Prop where
  subset : ∀ kind old new, sets kind = some old → after kind = some new → new ⊆ old
  total : ret = (count (after .read) + count (after .write) + count (after .except) : ℕ)

/-- No descriptor reports `POLLHUP` that a given read set had not asked for, or `POLLERR` that a
given exception set had not asked for; and no set has bits that `fdszero` does not reach. -/
structure Clean (nfdbits : ℕ) (nfds : ℤ) (sets : FdSets) (polled : List Pollfd) : Prop where
  hup : ∀ pollfd ∈ polled, pollfd.revents &&& pollhup ≠ 0 →
    ∀ set, sets .read = some set → pollfd.fd.toNat ∈ set
  err : ∀ pollfd ∈ polled, pollfd.revents &&& pollerr ≠ 0 →
    ∀ set, sets .except = some set → pollfd.fd.toNat ∈ set
  low : ∀ kind set, sets kind = some set → ∀ fd ∈ set, fd < cleared nfdbits nfds

theorem mem_hits {kind : Kind} {fd : ℕ} :
    fd ∈ hits polled kind ↔ ∃ pollfd ∈ polled, Hit kind pollfd ∧ pollfd.fd.toNat = fd := by
  simp [hits, and_assoc]

theorem count_fdszero (nfdbits : ℕ) (nfds : ℤ) (set : Option (Finset ℕ)) :
    count (set.map fun set => fdszero nfdbits set nfds) = 0 ↔
      ∀ members, set = some members → ∀ fd ∈ members, fd < cleared nfdbits nfds := by
  cases set with
  | none => simp [count]
  | some members => simp [count, fdszero, Finset.filter_eq_empty_iff]

theorem count_selected {nfdbits : ℕ} (hbits : 0 < nfdbits)
    (hrequest : polled.map Pollfd.request = (pollset nfds sets).map Pollfd.request) (kind : Kind) :
    count ((sets kind).map fun set => fdszero nfdbits set nfds ∪ (hits polled kind).toFinset) =
      count ((sets kind).map fun set => fdszero nfdbits set nfds) +
        found (sets kind) (hits polled kind) := by
  cases hset : sets kind with
  | none => rfl
  | some set => exact card_union_hits hbits hrequest set kind

/-- Which descriptors are put into a set although it did not have them. -/
theorem hits_subset_iff
    (hrequest : polled.map Pollfd.request = (pollset nfds sets).map Pollfd.request)
    (hreported : Reported (pollset nfds sets) polled (pollset nfds sets).length num) :
    (∀ kind set, sets kind = some set → ∀ fd ∈ hits polled kind, fd ∈ set) ↔
      (∀ pollfd ∈ polled, pollfd.revents &&& pollhup ≠ 0 →
        ∀ set, sets .read = some set → pollfd.fd.toNat ∈ set) ∧
      ∀ pollfd ∈ polled, pollfd.revents &&& pollerr ≠ 0 →
        ∀ set, sets .except = some set → pollfd.fd.toNat ∈ set := by
  have hread : ∀ flags : BitVec 16, flags &&& reported .read ≠ 0 ↔
      flags.getLsbD 0 = true ∨ flags &&& pollhup ≠ 0 := by
    intro flags
    have hor : flags &&& pollin ||| flags &&& pollhup = 0 ↔
        flags &&& pollin = 0 ∧ flags &&& pollhup = 0 := BitVec.or_eq_zero_iff
    rw [← and_twoPow_ne_zero flags (by decide : 0 < 16), reported,
      BitVec.and_or_distrib_left, ne_eq, hor, not_and_or]
    rfl
  constructor
  · intro hsubset
    refine ⟨fun pollfd hmem hhup set hset => ?_, fun pollfd hmem herr set hset => ?_⟩
    · exact hsubset .read set hset _ (mem_hits.2 ⟨pollfd, hmem, (hread _).2 (.inr hhup), rfl⟩)
    · exact hsubset .except set hset _ (mem_hits.2 ⟨pollfd, hmem, herr, rfl⟩)
  · rintro ⟨hhup, herr⟩ kind set hset fd hfd
    obtain ⟨pollfd, hmem, hhit, rfl⟩ := mem_hits.1 hfd
    obtain ⟨fd, hcast, answer, heq, -⟩ := exists_of_mem_polled hrequest hreported hmem
    obtain ⟨hin, hout⟩ := getLsbD_events sets fd
    cases kind with
    | read =>
      rcases (hread _).1 hhit with hbit | hset'
      · rw [heq] at hbit
        have hasked := (getLsbD_revents (by decide) hbit).resolve_right (by decide)
        rw [hin, hset] at hasked
        rw [hcast]
        exact of_decide_eq_true hasked
      · exact hhup pollfd hmem hset' set hset
    | write =>
      have hbit := (and_twoPow_ne_zero pollfd.revents (by decide : 1 < 16)).1 hhit
      rw [heq] at hbit
      have hasked := (getLsbD_revents (by decide) hbit).resolve_right (by decide)
      rw [hout, hset] at hasked
      rw [hcast]
      exact of_decide_eq_true hasked
    | except => exact herr pollfd hmem hhit set hset

/-- After a call of `poll` that has returned, the sets are subsets and their bits are counted if
and only if no descriptor reports an error or a hang-up to a set that had not asked for it, and no
bits are left above `nfds`. -/
theorem select_respects_iff {tickPerSecond nfdbits : ℕ} (hbits : 0 < nfdbits) {nfds : ℤ}
    {sets : FdSets} {timeout : Option (ℤ × ℤ)} {trace : List (Action × Unit)} {last : State}
    {num : ℕ}
    (hrun : (machine (rtTickFromMillisecond tickPerSecond (selectMsec timeout))).Run
      (pollDo (pollset nfds sets) (selectMsec timeout)) trace last)
    (hdone : last.pc = .done num) :
    Respects sets (select nfdbits nfds sets (some (last.fds, num))).1
        (select nfdbits nfds sets (some (last.fds, num))).2 ↔
      Clean nfdbits nfds sets last.fds := by
  obtain ⟨hrequest, hreported⟩ := reported_of_done hrun hdone
  obtain ⟨hsets, hret⟩ := select_eq nfdbits hrequest hreported
  have hhits := hits_subset_iff hrequest hreported
  have hcount := count_selected hbits hrequest
  have hleft := fun kind => count_fdszero nfdbits nfds (sets kind)
  constructor
  · rintro ⟨hsubset, htotal⟩
    have hall := hhits.1 fun kind set hset fd hfd => hsubset kind set _ hset
      (by rw [hsets kind, hset]; rfl) (Finset.mem_union_right _ (List.mem_toFinset.2 hfd))
    refine ⟨hall.1, hall.2, fun kind => (hleft kind).1 ?_⟩
    rw [hret, hsets, hsets, hsets, hcount, hcount, hcount, Nat.cast_inj] at htotal
    cases kind <;> omega
  · rintro ⟨hhup, herr, hlow⟩
    refine ⟨fun kind old new hold hnew => ?_, ?_⟩
    · rw [hsets kind, hold, Option.map_some, Option.some.injEq] at hnew
      rw [← hnew]
      refine Finset.union_subset (Finset.filter_subset _ _) fun fd hfd => ?_
      exact hhits.2 ⟨hhup, herr⟩ kind old hold fd (List.mem_toFinset.1 hfd)
    · rw [hret, hsets, hsets, hsets, hcount, hcount, hcount, (hleft .read).2 (hlow .read),
        (hleft .write).2 (hlow .write), (hleft .except).2 (hlow .except)]
      simp

/-- One descriptor that may be read, and is asked for by two sets. -/
def bothSets : FdSets
  | .read => some {3}
  | .write => some {3}
  | .except => none

/-- The descriptor after `poll`. -/
def readable : State where
  fds := [⟨3, pollin ||| pollout, pollin⟩]
  table := { proc := false, triggered := false, nodes := [] }
  isTimeout := true
  pc := .done 1

theorem exec_readable : (machine (rtTickFromMillisecond 1000 (selectMsec (some (0, 0))))).exec
    (fun _ _ => True) (pollDo (pollset 4 bothSets) (selectMsec (some (0, 0))))
      [.check (.driver 1 0), .endScan] =
    some (readable, [(.check (.driver 1 0), ()), (.endScan, ())]) := by
  decide

theorem select_respects_readable :
    Respects bothSets (select 32 4 bothSets (some (readable.fds, 1))).1
      (select 32 4 bothSets (some (readable.fds, 1))).2 := by
  refine (select_respects_iff (by decide) (Machine.runWith_of_exec _ exec_readable) rfl).2
    ⟨?_, ?_, fun kind set hset fd hfd => ?_⟩
  · decide
  · decide
  · have hthree : fd = 3 := by
      cases kind with
      | except => contradiction
      | _ =>
        cases hset
        exact Finset.mem_singleton.1 hfd
    rw [hthree]
    decide

/-- A descriptor that only the write set asks for. -/
def writeSet : FdSets
  | .read => some ∅
  | .write => some {3}
  | .except => none

/-- The descriptor after `poll`, when the connection is gone. -/
def hungUp : State where
  fds := [⟨3, pollout, pollhup⟩]
  table := { proc := false, triggered := false, nodes := [] }
  isTimeout := true
  pc := .done 1

theorem exec_hungUp : (machine (rtTickFromMillisecond 1000 (selectMsec (some (0, 0))))).exec
    (fun _ _ => True) (pollDo (pollset 4 writeSet) (selectMsec (some (0, 0))))
      [.check (.driver 8 0), .endScan] =
    some (hungUp, [(.check (.driver 8 0), ()), (.endScan, ())]) := by
  decide

/-- The read set, which was empty, comes back with the descriptor. -/
theorem select_hangs_up :
    (∃ trace, (machine (rtTickFromMillisecond 1000 (selectMsec (some (0, 0))))).Run
      (pollDo (pollset 4 writeSet) (selectMsec (some (0, 0)))) trace hungUp) ∧
    hungUp.pc = .done 1 ∧
    (select 32 4 writeSet (some (hungUp.fds, 1))).1 .read = some {3} ∧
    ¬Respects writeSet (select 32 4 writeSet (some (hungUp.fds, 1))).1
      (select 32 4 writeSet (some (hungUp.fds, 1))).2 := by
  have hread : (select 32 4 writeSet (some (hungUp.fds, 1))).1 .read = some {3} := by
    decide
  refine ⟨⟨_, Machine.runWith_of_exec _ exec_hungUp⟩, rfl, hread, fun hrespects => ?_⟩
  exact absurd (hrespects.subset .read ∅ {3} rfl hread) (by decide)

end RtThread.Select
