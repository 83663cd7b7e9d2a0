import RtThread.Core.WrapClock
import RtThread.Timer.Timer

set_option linter.all false

/-!
# The list of hard timers

Over every sequence of starts, stops, settings and checks, with any timeout
functions and any ticks, the rows of `rt_timer_list` stay sorted by timeout tick, each
is a sublist of the row below, and the bottom row holds the timers that run, equal
timeout ticks in the order of their starts.  The order is that of the signed
distance from the present tick.  It is a total order because no timer of the list is
further than one tick in the past: `rt_tick_increase` advances the tick by one and
checks the list at once.
-/

namespace RtThread.Timer

open Function
open RtThread.Core
open RtThread.Core.WrapClock
open RtThread.Core.LayeredList

variable {Id : Type*}

/-- What the events of a run say about the timers: how many starts there were, the
number of the last start of each timer, and whether the timer has been neither
stopped nor called since. -/
structure Record (Id : Type*) where
  starts : ℕ
  startedAt : Id → ℕ
  running : Id → Bool

variable [DecidableEq Id]

def Record.start (record : Record Id) (id : Id) : Record Id where
  starts := record.starts + 1
  startedAt := update record.startedAt id (record.starts + 1)
  running := update record.running id true

def Record.stop (record : Record Id) (id : Id) : Record Id :=
  { record with running := update record.running id false }

def Record.note (record : Record Id) : Event Id → Record Id
  | .started id | .rearmed id => record.start id
  | .stopped id | .called id => record.stop id
  | _ => record

def recordOf (trace : List (Action Id × Event Id)) : Record Id :=
  trace.foldl (fun record entry => record.note entry.2) ⟨0, fun _ => 0, fun _ => false⟩

/-- The signed distance of the timeout tick of a timer from the present tick. -/
def timeLeft (st : State Id) (id : Id) : ℤ :=
  distance st.tick (st.timers id).timeoutTick

/-- The list of hard timers, no timer of it further in the past than `low`. -/
structure ListInv (cfg : Config) (low : ℤ) (record : Record Id) (st : State Id) : Prop where
  nodup : ∀ kind row, (st.rows kind row).Nodup
  own : ∀ kind row, ∀ id ∈ st.rows kind row, kind = cfg.kind (st.timers id)
  layered : Layered (st.rows .hard) cfg.level
  ordered : ∀ row, row < cfg.level →
    StableOrder.Ordered (timeLeft st) record.startedAt (st.rows .hard row)
  window : ∀ id ∈ st.rows .hard cfg.bottom,
    low ≤ timeLeft st id ∧ timeLeft st id ≤ 0x7ffffffe
  stamped : ∀ id, record.startedAt id ≤ record.starts
  running : ∀ id, cfg.kind (st.timers id) = .hard →
    (id ∈ st.rows .hard cfg.bottom ↔ record.running id = true)
  fits : ∀ id, (st.timers id).initTick < halfTickMax

variable {cfg : Config} {low : ℤ} {record : Record Id} {st : State Id}

omit [DecidableEq Id] in
theorem bottom_lt (cfg : Config) : cfg.bottom < cfg.level :=
  Nat.sub_lt cfg.level_pos Nat.one_pos

variable {row : ℕ} {id : Id}

omit [DecidableEq Id] in
theorem ListInv.mem_bottom (hinv : ListInv cfg low record st) (hrow : row < cfg.level)
    (hmem : id ∈ st.rows .hard row) : id ∈ st.rows .hard cfg.bottom := by
  have hlevel : cfg.bottom + 1 = cfg.level := Nat.sub_add_cancel cfg.level_pos
  have hlayered : Layered (st.rows .hard) (cfg.bottom + 1) := hlevel ▸ hinv.layered
  exact (hlayered.sublist_bottom (by omega)).subset hmem

omit [DecidableEq Id] in
/-- The list depends on the ticks of the linked timers only. -/
theorem ListInv.congr {next : State Id} (hinv : ListInv cfg low record st)
    (hrows : next.rows = st.rows) (htick : next.tick = st.tick)
    (hkind : ∀ id, cfg.kind (next.timers id) = cfg.kind (st.timers id))
    (htimeout : ∀ row, ∀ id ∈ st.rows .hard row,
      (next.timers id).timeoutTick = (st.timers id).timeoutTick)
    (hfits : ∀ id, (next.timers id).initTick < halfTickMax) :
    ListInv cfg low record next := by
  have hleft : ∀ row, ∀ id ∈ st.rows .hard row, timeLeft next id = timeLeft st id := by
    intro row id hmem
    rw [timeLeft, timeLeft, htick, htimeout row id hmem]
  refine ⟨fun kind row => ?_, fun kind row id hmem => ?_, ?_, fun row hrow => ?_,
    fun id hmem => ?_, hinv.stamped, fun id hhard => ?_, hfits⟩
  · rw [hrows]
    exact hinv.nodup kind row
  · rw [hrows] at hmem
    rw [hkind]
    exact hinv.own kind row id hmem
  · rw [hrows]
    exact hinv.layered
  · rw [hrows]
    exact (hinv.ordered row hrow).congr (hleft row) fun _ _ => rfl
  · rw [hrows] at hmem
    rw [hleft _ id hmem]
    exact hinv.window id hmem
  · rw [hkind] at hhard
    rw [hrows]
    exact hinv.running id hhard

theorem listInv_timerRemove (hinv : ListInv cfg low record st) (id : Id) :
    ListInv cfg low (record.stop id) (timerRemove st id) := by
  have hmem : ∀ kind row other, other ∈ (timerRemove st id).rows kind row ↔
      other ≠ id ∧ other ∈ st.rows kind row := by
    intro kind row other
    exact (hinv.nodup kind row).mem_erase_iff
  refine ⟨fun kind row => (hinv.nodup kind row).erase id, fun kind row other hother => ?_,
    hinv.layered.erase id, fun row hrow => ?_, fun other hother => ?_, hinv.stamped,
    fun other hhard => ?_, hinv.fits⟩
  · exact hinv.own kind row other ((hmem kind row other).1 hother).2
  · exact (hinv.ordered row hrow).sublist List.erase_sublist
  · exact hinv.window other ((hmem _ _ other).1 hother).2
  · rw [hmem]
    by_cases hne : other = id
    · simp [hne, Record.stop]
    · simp only [ne_eq, hne, not_false_eq_true, true_and, Record.stop, update_of_ne]
      exact hinv.running other hhard

omit [DecidableEq Id] in
/-- In the list, the insertion of a timer stops exactly before those that time out
later. -/
theorem ListInv.stops_iff (hinv : ListInv cfg low record st) (hlow : -1 ≤ low)
    (hahead : 0 ≤ timeLeft st id ∧ timeLeft st id ≤ 0x7ffffffe) (hrow : row < cfg.level)
    {other : Id} (hmem : other ∈ st.rows .hard row) :
    stops (st.timers id) (st.timers other) = true ↔
      timeLeft st id < timeLeft st other := by
  obtain ⟨hotherLow, hotherHigh⟩ := hinv.window other (hinv.mem_bottom hrow hmem)
  have hself : InWindow st.tick (st.timers id).timeoutTick :=
    ⟨le_trans (by decide) hahead.1, hahead.2⟩
  have hother : InWindow st.tick (st.timers other).timeoutTick :=
    ⟨hlow.trans hotherLow, hotherHigh⟩
  rw [timeLeft, timeLeft, ← lt_iff_sub hself hother hahead.1]
  simp only [stops, Bool.and_eq_true, decide_eq_true_eq]
  rfl

omit [DecidableEq Id] in
theorem ListInv.monotone_stops (hinv : ListInv cfg low record st) (hlow : -1 ≤ low)
    (hahead : 0 ≤ timeLeft st id ∧ timeLeft st id ≤ 0x7ffffffe) (hrow : row < cfg.level) :
    Monotone (fun next => stops (st.timers id) (st.timers next)) (st.rows .hard row) := by
  refine List.Pairwise.imp_of_mem (fun {left right} hleft hright hbefore => ?_)
    (hinv.ordered row hrow)
  intro hstops
  simp only [hinv.stops_iff hlow hahead hrow hleft] at hstops
  rw [hinv.stops_iff hlow hahead hrow hright]
  rcases hbefore with hlt | ⟨heq, -⟩
  · exact hstops.trans hlt
  · rwa [← heq]

/-- A hard timer enters the rows of its list by ordered insertion. -/
theorem ListInv.rows_linkTimer (hinv : ListInv cfg low record st) (hlow : -1 ≤ low)
    (hahead : 0 ≤ timeLeft st id ∧ timeLeft st id ≤ 0x7ffffffe)
    (hkind : cfg.kind (st.timers id) = .hard) (hrow : row < cfg.level) :
    (linkTimer cfg st id).rows .hard row =
      if LinkedRow cfg (st.randomNr + 1) row then
        (st.rows .hard row).orderedInsert
          (fun _ next => stops (st.timers id) (st.timers next) = true) id
      else st.rows .hard row := by
  simp only [linkTimer, hkind, true_and]
  split
  · exact insertAfter_search hinv.layered
      (fun row hrow => hinv.monotone_stops hlow hahead hrow) hrow (hinv.nodup .hard row) id
  · rfl

theorem rows_linkTimer_of_ne {kind : Kind} (hkind : kind ≠ cfg.kind (st.timers id)) (row : ℕ) :
    (linkTimer cfg st id).rows kind row = st.rows kind row := by
  simp [linkTimer, hkind]

omit [DecidableEq Id] in
/-- The rows that get a timer reach down to the bottom row. -/
theorem linkedRow_succ {randomNr : BitVec 32} (hrow : row + 1 < cfg.level)
    (hlinked : LinkedRow cfg randomNr row) : LinkedRow cfg randomNr (row + 1) := by
  have hbottom : cfg.bottom = cfg.level - 1 := rfl
  obtain ⟨-, hextra⟩ := hlinked
  exact ⟨by omega, by omega⟩

theorem perm_linkTimer (cfg : Config) (st : State Id) (id : Id) (kind : Kind) (row : ℕ) :
    ((linkTimer cfg st id).rows kind row).Perm
      (if kind = cfg.kind (st.timers id) ∧ LinkedRow cfg (st.randomNr + 1) row then
        id :: st.rows kind row else st.rows kind row) := by
  simp only [linkTimer]
  split
  · exact perm_insertAfter _ _ _
  · exact List.Perm.refl _

theorem mem_linkTimer {kind : Kind} {other : Id}
    (hother : other ∈ (linkTimer cfg st id).rows kind row) :
    other = id ∧ kind = cfg.kind (st.timers id) ∨ other ∈ st.rows kind row := by
  rw [(perm_linkTimer cfg st id kind row).mem_iff] at hother
  split at hother
  · next hlinked => exact (List.mem_cons.1 hother).imp_left fun heq => ⟨heq, hlinked.1⟩
  · exact .inr hother

/-- A row in which the new timer stands behind those that started before. -/
theorem ListInv.ordered_linkTimer (hinv : ListInv cfg low record st) (hlow : -1 ≤ low)
    (hahead : 0 ≤ timeLeft st id ∧ timeLeft st id ≤ 0x7ffffffe)
    (hnot : ∀ kind row, id ∉ st.rows kind row) (hrow : row < cfg.level) :
    StableOrder.Ordered (timeLeft st) (record.start id).startedAt
      ((linkTimer cfg st id).rows .hard row) := by
  have hstamp : ∀ other ∈ st.rows .hard row,
      (record.start id).startedAt other = record.startedAt other := by
    intro other hother
    have hne : other ≠ id := fun heq => hnot .hard row (heq ▸ hother)
    simp [Record.start, hne]
  have hrest : StableOrder.Ordered (timeLeft st) (record.start id).startedAt
      (st.rows .hard row) := (hinv.ordered row hrow).congr (fun _ _ => rfl) hstamp
  by_cases hkind : cfg.kind (st.timers id) = .hard
  · rw [hinv.rows_linkTimer hlow hahead hkind hrow]
    split
    · have hsame : (st.rows .hard row).orderedInsert
          (fun _ next => stops (st.timers id) (st.timers next) = true) id =
          (st.rows .hard row).orderedInsert
            (fun left right => timeLeft st left < timeLeft st right) id := by
        apply StableOrder.orderedInsert_congr
        intro other hother
        exact hinv.stops_iff hlow hahead hrow hother
      rw [hsame]
      refine StableOrder.Ordered.orderedInsert (fun other hother => ?_) hrest
      have hle := hinv.stamped other
      rw [hstamp other hother]
      simp only [Record.start, update_self]
      omega
    · exact hrest
  · rw [rows_linkTimer_of_ne (Ne.symm hkind)]
    exact hrest

/-- A timer that is not linked is put into the list of its kind. -/
theorem listInv_linkTimer (hinv : ListInv cfg low record st) (hlow : -1 ≤ low) (hlow' : low ≤ 0)
    (hahead : 0 ≤ timeLeft st id ∧ timeLeft st id ≤ 0x7ffffffe)
    (hnot : ∀ kind row, id ∉ st.rows kind row) :
    ListInv cfg low (record.start id) (linkTimer cfg st id) := by
  have hnodup : ∀ kind row, ((linkTimer cfg st id).rows kind row).Nodup := by
    intro kind row
    rw [(perm_linkTimer cfg st id kind row).nodup_iff]
    split
    · exact List.nodup_cons.2 ⟨hnot kind row, hinv.nodup kind row⟩
    · exact hinv.nodup kind row
  refine ⟨hnodup, fun kind row other hother => ?_, fun row hrow => ?_,
    fun row hrow => hinv.ordered_linkTimer hlow hahead hnot hrow, fun other hother => ?_,
    fun other => ?_, fun other hhard => ?_, hinv.fits⟩
  · rcases mem_linkTimer hother with ⟨rfl, hkind⟩ | hold
    · exact hkind
    · exact hinv.own kind row other hold
  · by_cases hkind : cfg.kind (st.timers id) = .hard
    · rw [hinv.rows_linkTimer hlow hahead hkind (by omega),
        hinv.rows_linkTimer hlow hahead hkind hrow]
      have hlinked : ∀ row, row + 1 < cfg.level →
          LinkedRow cfg (st.randomNr + 1) row →
          LinkedRow cfg (st.randomNr + 1) (row + 1) :=
        fun row hrow => linkedRow_succ hrow
      exact hinv.layered.orderedInsert (fun row hrow => hinv.monotone_stops hlow hahead hrow)
        hlinked id row hrow
    · rw [rows_linkTimer_of_ne (Ne.symm hkind), rows_linkTimer_of_ne (Ne.symm hkind)]
      exact hinv.layered row hrow
  · rcases mem_linkTimer hother with ⟨rfl, -⟩ | hold
    · exact ⟨hlow'.trans hahead.1, hahead.2⟩
    · exact hinv.window other hold
  · by_cases hne : other = id
    · simp [hne, Record.start]
    · have hle := hinv.stamped other
      simp only [Record.start, ne_eq, hne, not_false_eq_true, update_of_ne]
      omega
  · rw [(perm_linkTimer cfg st id .hard cfg.bottom).mem_iff]
    by_cases hne : other = id
    · subst hne
      have hhard : cfg.kind (st.timers other) = .hard := hhard
      simp [hhard, Record.start]
    · have hold := hinv.running other hhard
      simp only [Record.start, ne_eq, hne, not_false_eq_true, update_of_ne]
      rw [← hold]
      split
      · exact List.mem_cons.trans (or_iff_right hne)
      · exact Iff.rfl

/-- A setting of a timer that concerns neither its list nor, while it is linked, its
place in it. -/
theorem listInv_setTimer (hinv : ListInv cfg low record st) {operation : RtTimer → RtTimer}
    (hkind : cfg.kind (operation (st.timers id)) = cfg.kind (st.timers id))
    (htimeout : (∀ row, id ∉ st.rows .hard row) ∨
      (operation (st.timers id)).timeoutTick = (st.timers id).timeoutTick)
    (hfits : (operation (st.timers id)).initTick < halfTickMax) :
    ListInv cfg low record (setTimer st id operation) := by
  refine hinv.congr rfl rfl (fun other => ?_) (fun row other hmem => ?_) (fun other => ?_)
  · by_cases hne : other = id
    · subst hne
      rw [timers_setTimer, hkind]
    · rw [timers_setTimer_of_ne st id operation hne]
  · by_cases hne : other = id
    · subst hne
      rw [timers_setTimer]
      exact htimeout.resolve_left fun hnot => hnot row hmem
    · rw [timers_setTimer_of_ne st id operation hne]
  · by_cases hne : other = id
    · subst hne
      rwa [timers_setTimer]
    · rw [timers_setTimer_of_ne st id operation hne]
      exact hinv.fits other

theorem listInv_setActivated (hinv : ListInv cfg low record st) (id : Id)
    (activated : Bool) : ListInv cfg low record (setActivated st id activated) :=
  listInv_setTimer hinv rfl (.inr rfl) (hinv.fits id)

theorem listInv_rtTimerStart (hinv : ListInv cfg low record st) (hlow : -1 ≤ low)
    (hlow' : low ≤ 0) (id : Id) :
    ListInv cfg low (record.start id) (rtTimerStart cfg st id) := by
  have hnot : ∀ kind row, id ∉ (timerRemove st id).rows kind row :=
    fun kind row => (hinv.nodup kind row).not_mem_erase
  have hremoved := listInv_setActivated (listInv_timerRemove hinv id) id false
  have hbegun : ListInv cfg low (record.stop id) (beginStart st id) := by
    rw [beginStart, setTimeout]
    exact listInv_setTimer hremoved rfl (.inl (hnot .hard)) (hremoved.fits id)
  have hfits := hinv.fits id
  have hahead : timeLeft (beginStart st id) id = (st.timers id).initTick.toNat := by
    rw [timeLeft, timers_beginStart]
    exact distance_add hfits
  have hlt : (st.timers id).initTick.toNat < 0x7fffffff := hfits
  have hwindow : 0 ≤ timeLeft (beginStart st id) id ∧
      timeLeft (beginStart st id) id ≤ 0x7ffffffe := by omega
  have hlinked := listInv_linkTimer hbegun hlow hlow' hwindow hnot
  have hrecord : (record.stop id).start id = record.start id := by
    simp [Record.start, Record.stop]
  rw [hrecord] at hlinked
  exact listInv_setActivated hlinked id true

theorem listInv_endExpiry (hinv : ListInv cfg low record st) (hlow : -1 ≤ low)
    (hlow' : low ≤ 0) (id : Id) :
    ListInv cfg low (record.note (endEvent st id)) (endExpiry cfg st id) := by
  rw [endEvent, endExpiry]
  split
  · rw [rtTimerStart_setActivated]
    exact listInv_rtTimerStart hinv hlow hlow' id
  · exact listInv_setActivated hinv id false

/-- The init ticks that are set are less than half the range. -/
def InitTicksFit (_ : State Id) : Action Id → Prop
  | .op (.control _ (.setTime time)) => time < halfTickMax
  | _ => True

theorem listInv_runOp (hinv : ListInv cfg low record st) (hlow : -1 ≤ low)
    (hlow' : low ≤ 0) {op : Op Id} (hfits : InitTicksFit st (.op op)) :
    ListInv cfg low (record.note (runOp cfg st op).2) (runOp cfg st op).1 := by
  cases op with
  | start id => exact listInv_rtTimerStart hinv hlow hlow' id
  | stop id =>
    simp only [runOp, rtTimerStop]
    split
    · exact listInv_setActivated (listInv_timerRemove hinv id) id false
    · exact hinv
  | control id cmd =>
    cases cmd with
    | getTime => exact hinv
    | setTime time =>
      change ListInv cfg low record
        (setTimer st id fun timer => { timer with initTick := time })
      exact listInv_setTimer hinv rfl (.inr rfl) hfits
    | setOneshot =>
      change ListInv cfg low record
        (setTimer st id fun timer => { timer with periodic := false })
      exact listInv_setTimer hinv rfl (.inr rfl) (hinv.fits id)
    | setPeriodic =>
      change ListInv cfg low record
        (setTimer st id fun timer => { timer with periodic := true })
      exact listInv_setTimer hinv rfl (.inr rfl) (hinv.fits id)

omit [DecidableEq Id] in
/-- The tick advances past no timer by more than one. -/
theorem listInv_tick (hinv : ListInv cfg 0 record st) (hard : HardPhase Id) :
    ListInv cfg (-1) record { st with tick := st.tick + 1, hard := hard } := by
  set next : State Id := { st with tick := st.tick + 1, hard := hard } with hnext
  have hleft : ∀ row, row < cfg.level → ∀ id ∈ st.rows .hard row,
      timeLeft next id = timeLeft st id - 1 :=
    fun row hrow id hmem => distance_succ
      (lt_of_lt_of_le (by decide) (hinv.window id (hinv.mem_bottom hrow hmem)).1)
  refine ⟨hinv.nodup, hinv.own, hinv.layered, fun row hrow => ?_, fun id hmem => ?_,
    hinv.stamped, hinv.running, hinv.fits⟩
  · refine List.Pairwise.imp_of_mem (fun {left right} hleftMem hrightMem hbefore => ?_)
      (hinv.ordered row hrow)
    rw [StableOrder.Before, hleft row hrow left hleftMem, hleft row hrow right hrightMem]
    exact hbefore.imp (fun hlt => by omega) fun heq => ⟨by omega, heq.2⟩
  · have hwindow := hinv.window id hmem
    rw [hleft cfg.bottom (bottom_lt cfg) id hmem]
    omega

omit [DecidableEq Id] in
theorem ListInv.mono {low' : ℤ} (hinv : ListInv cfg low record st) (hle : low' ≤ low) :
    ListInv cfg low' record st :=
  ⟨hinv.nodup, hinv.own, hinv.layered, hinv.ordered,
    fun id hmem => ⟨hle.trans (hinv.window id hmem).1, (hinv.window id hmem).2⟩, hinv.stamped,
    hinv.running, hinv.fits⟩

omit [DecidableEq Id] in
theorem ListInv.expired_iff (hinv : ListInv cfg (-1) record st)
    (hmem : id ∈ st.rows .hard cfg.bottom) :
    expired st.tick (st.timers id) = true ↔ timeLeft st id ≤ 0 := by
  rw [expired, decide_eq_true_eq]
  exact reached_iff (hinv.window id hmem)

omit [DecidableEq Id] in
theorem ListInv.ahead_of_not_due (hinv : ListInv cfg (-1) record st)
    (hnone : due st st.tick (firstTimer cfg st .hard) = none)
    (hmem : id ∈ st.rows .hard cfg.bottom) :
    0 < timeLeft st id := by
  have hordered := hinv.ordered cfg.bottom (bottom_lt cfg)
  cases hlist : st.rows .hard cfg.bottom with
  | nil => simp [hlist] at hmem
  | cons first rest =>
    have hfirst : first ∈ st.rows .hard cfg.bottom := by simp [hlist]
    have hahead : 0 < timeLeft st first := by
      rw [← not_le, ← hinv.expired_iff hfirst]
      simpa [due, firstTimer, hlist, Option.filter] using hnone
    rw [hlist] at hordered hmem
    rcases List.mem_cons.1 hmem with rfl | hrest
    · exact hahead
    · rcases hordered.head_before id hrest with hlt | ⟨heq, -⟩
      · exact hahead.trans hlt
      · rwa [← heq]

omit [DecidableEq Id] in
theorem ListInv.setHard (hinv : ListInv cfg low record st) (hard : HardPhase Id) :
    ListInv cfg low record { st with hard := hard } :=
  hinv.congr rfl rfl (fun _ => rfl) (fun _ _ _ => rfl) hinv.fits

omit [DecidableEq Id] in
theorem ListInv.setSoft (hinv : ListInv cfg low record st) (soft : SoftPhase Id) :
    ListInv cfg low record { st with soft := soft } :=
  hinv.congr rfl rfl (fun _ => rfl) (fun _ _ _ => rfl) hinv.fits

/-- Between the checks no timer of the list has passed. -/
def lowest : HardPhase Id → ℤ
  | .idle => 0
  | _ => -1

/-- The list of hard timers, where a check stands at its loop with the present tick. -/
structure OrderInv (cfg : Config) (record : Record Id) (st : State Id) : Prop where
  list : ListInv cfg (lowest st.hard) record st
  current : ∀ currentTick, st.hard = .checking currentTick → currentTick = st.tick

omit [DecidableEq Id] in
theorem lowest_bounds (hard : HardPhase Id) : -1 ≤ lowest hard ∧ lowest hard ≤ 0 := by
  cases hard <;> simp [lowest]

theorem orderInv_step {next : State Id} {act : Action Id} {event : Event Id}
    (hinv : OrderInv cfg record st) (hfits : InitTicksFit st act)
    (hstep : step cfg st act = some (next, event)) :
    OrderInv cfg (record.note event) next := by
  obtain ⟨hlow, hlow'⟩ := lowest_bounds st.hard
  have hlist := hinv.list
  cases act with
  | op op =>
    simp only [step] at hstep
    split at hstep
    · contradiction
    · next hnot =>
        have hnext := listInv_runOp hlist hlow hlow' hfits
        have hhard := hard_runOp cfg st op
        rw [← hhard] at hnext
        rw [Option.some.inj hstep] at hnext hhard
        refine ⟨hnext, fun currentTick hchecking => ?_⟩
        rw [hhard] at hchecking
        exact absurd hchecking (hnot currentTick)
  | tick =>
    simp only [step] at hstep
    split at hstep
    · next hidle =>
        rw [hidle] at hlist
        cases hstep
        refine ⟨listInv_tick hlist _, fun currentTick hchecking => ?_⟩
        exact (HardPhase.checking.inj hchecking).symm
    · contradiction
  | check =>
    simp only [step] at hstep
    split at hstep
    · next hidle =>
        rw [hidle] at hlist
        cases hstep
        refine ⟨(hlist.mono (by simp [lowest])).setHard _, fun currentTick hchecking => ?_⟩
        exact (HardPhase.checking.inj hchecking).symm
    · contradiction
  | loop =>
    simp only [step] at hstep
    split at hstep
    · next currentTick hchecking =>
        have hcurrent := hinv.current currentTick hchecking
        rw [hchecking] at hlist
        split at hstep
        · next id hdue =>
            cases hstep
            exact ⟨(listInv_timerRemove hlist id).setHard _, fun _ hother => by cases hother⟩
        · next hnone =>
            cases hstep
            rw [hcurrent] at hnone
            have hahead : ListInv cfg 0 record st :=
              ⟨hlist.nodup, hlist.own, hlist.layered, hlist.ordered,
                fun id hmem => ⟨(hlist.ahead_of_not_due hnone hmem).le, (hlist.window id hmem).2⟩,
                hlist.stamped, hlist.running, hlist.fits⟩
            exact ⟨hahead.setHard _, fun _ hother => by cases hother⟩
    · contradiction
  | finish =>
    simp only [step] at hstep
    split at hstep
    · next id hcalling =>
        rw [hcalling] at hlist
        cases hstep
        refine ⟨(listInv_endExpiry hlist le_rfl (by simp [lowest]) id).setHard _,
          fun currentTick hchecking => ?_⟩
        rw [← HardPhase.checking.inj hchecking]
        exact (tick_endExpiry cfg st id).symm
    · contradiction
  | softCheck =>
    simp only [step] at hstep
    split at hstep
    · cases hstep
      exact ⟨hlist.setSoft _, hinv.current⟩
    · contradiction
  | softLoop =>
    simp only [step] at hstep
    split at hstep
    · split at hstep
      · next id hdue =>
          cases hstep
          exact ⟨(listInv_timerRemove hlist id).setSoft _, hinv.current⟩
      · cases hstep
        exact ⟨hlist.setSoft _, hinv.current⟩
    · contradiction
  | softFinish =>
    simp only [step] at hstep
    split at hstep
    · next id n hidle hcalling =>
        cases hstep
        have hnext := (listInv_endExpiry hlist hlow hlow' id).setSoft (.checking st.tick n)
        rw [hard_endExpiry] at hnext ⊢
        refine ⟨hnext, fun currentTick hchecking => ?_⟩
        rw [hinv.current currentTick hchecking]
        exact (tick_endExpiry cfg st id).symm
    · contradiction

theorem recordOf_snoc (trace : List (Action Id × Event Id)) (act : Action Id)
    (event : Event Id) : recordOf (trace ++ [(act, event)]) = (recordOf trace).note event := by
  rw [recordOf, List.foldl_append]
  rfl

omit [DecidableEq Id] in
theorem orderInv_initial (cfg : Config) (tick : BitVec 32) {time : Id → BitVec 32}
    (periodic softTimer : Id → Bool) (htime : ∀ id, time id < halfTickMax) :
    OrderInv cfg ⟨0, fun _ => 0, fun _ => false⟩ (initial tick time periodic softTimer) := by
  refine ⟨⟨?_, ?_, ?_, ?_, ?_, ?_, ?_, htime⟩, ?_⟩
  · exact fun _ _ => List.nodup_nil
  · intro kind row id hmem
    cases hmem
  · exact fun _ _ => List.Sublist.refl _
  · exact fun _ _ => List.Pairwise.nil
  · intro id hmem
    cases hmem
  · exact fun _ => le_rfl
  · simp [initial]
  · intro currentTick hchecking
    cases hchecking

theorem orderInv_run {tick : BitVec 32} {time : Id → BitVec 32} {periodic softTimer : Id → Bool}
    {trace : List (Action Id × Event Id)} (htime : ∀ id, time id < halfTickMax)
    (hrun : (machine cfg).RunWith InitTicksFit (initial tick time periodic softTimer)
      trace st) :
    OrderInv cfg (recordOf trace) st := by
  refine hrun.traceInvariant (fun past st => OrderInv cfg (recordOf past) st)
    (fun past st act next event hinv hfits hstep => ?_)
    (orderInv_initial cfg tick periodic softTimer htime)
  rw [recordOf_snoc]
  exact orderInv_step hinv hfits hstep

omit [DecidableEq Id] in
/-- Timers with the same timeout tick have the same time left. -/
theorem timeLeft_congr {left right : Id}
    (heq : (st.timers left).timeoutTick = (st.timers right).timeoutTick) :
    timeLeft st left = timeLeft st right := by
  rw [timeLeft, timeLeft, heq]

/-- For any number of rows, any first tick and any sequence of starts, stops, settings,
ticks and checks, as long as every init tick is less than half the range of ticks: the
rows are sorted by the time that is left, each is a sublist of the row below, the bottom
row holds the hard timers that were started and have since been neither stopped nor
called, and equal timeout ticks stand in the order of the starts. -/
theorem timer_list_represented {tick : BitVec 32} {time : Id → BitVec 32}
    {periodic softTimer : Id → Bool} {trace : List (Action Id × Event Id)}
    (htime : ∀ id, time id < halfTickMax)
    (hrun : (machine cfg).RunWith InitTicksFit (initial tick time periodic softTimer)
      trace st) :
    (∀ row, row < cfg.level → (st.rows .hard row).Nodup ∧
      (st.rows .hard row).Pairwise fun left right =>
        timeLeft st left ≤ timeLeft st right) ∧
    (∀ row, row + 1 < cfg.level →
      (st.rows .hard row).Sublist (st.rows .hard (row + 1))) ∧
    (∀ id, id ∈ st.rows .hard cfg.bottom ↔
      cfg.kind (st.timers id) = .hard ∧ (recordOf trace).running id = true) ∧
    (∀ row, row < cfg.level → (st.rows .hard row).Pairwise fun left right =>
      (st.timers left).timeoutTick = (st.timers right).timeoutTick →
        (recordOf trace).startedAt left < (recordOf trace).startedAt right) := by
  have hlist := (orderInv_run htime hrun).list
  refine ⟨fun row hrow => ⟨hlist.nodup .hard row, ?_⟩, hlist.layered, fun id => ?_,
    fun row hrow => ?_⟩
  · apply (hlist.ordered row hrow).imp
    intro left right hbefore
    exact hbefore.elim (fun hlt => hlt.le) fun heq => heq.1.le
  · constructor
    · intro hmem
      have hkind := (hlist.own .hard cfg.bottom id hmem).symm
      exact ⟨hkind, (hlist.running id hkind).1 hmem⟩
    · rintro ⟨hkind, hrunning⟩
      exact (hlist.running id hkind).2 hrunning
  · apply (hlist.ordered row hrow).imp
    intro left right hbefore heq
    rcases hbefore with hlt | ⟨-, hstamp⟩
    · exact absurd (timeLeft_congr heq) hlt.ne
    · exact hstamp

instance (st : State Id) (act : Action Id) : Decidable (InitTicksFit st act) :=
  match act with
  | .op (.control _ (.setTime time)) => inferInstanceAs (Decidable (time < halfTickMax))
  | .op (.control _ .getTime) => isTrue trivial
  | .op (.control _ .setOneshot) => isTrue trivial
  | .op (.control _ .setPeriodic) => isTrue trivial
  | .op (.start _) => isTrue trivial
  | .op (.stop _) => isTrue trivial
  | .tick | .check | .loop | .finish => isTrue trivial
  | .softCheck | .softLoop | .softFinish => isTrue trivial

/-- Two rows. -/
def twoRows : Config where
  level := 2
  level_pos := Nat.two_pos
  mask := 1
  usingTimerSoft := false

/-- Two ticks before the wrap-around, a timer that times out at the last tick and one
that times out beyond it. -/
theorem timer_list_represented_wrapAround :
    ∃ trace, ∃ st : State (Fin 2),
      (machine twoRows).RunWith InitTicksFit
        (initial 0xfffffffe (fun id => if id = 0 then 3 else 1) (fun _ => true) fun _ => false)
        trace st ∧
      st.rows .hard 0 = [0] ∧ st.rows .hard 1 = [1, 0] ∧
      (1 ∈ st.rows .hard 1 ↔
        twoRows.kind (st.timers 1) = .hard ∧ (recordOf trace).running 1 = true) := by
  have hrun : (machine twoRows).RunWith InitTicksFit
      (initial 0xfffffffe (fun id : Fin 2 => if id = 0 then 3 else 1) (fun _ => true)
        fun _ => false) _ _ :=
    Machine.runWith_of_exec [.op (.start 1), .op (.start 0)] rfl
  exact ⟨_, _, hrun, by decide, by decide,
    (timer_list_represented (by decide) hrun).2.2.1 1⟩

end RtThread.Timer
