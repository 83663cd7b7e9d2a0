import RtThread.Drivers.Ringbuffer

set_option linter.all false

/-!
# Pipes

The file operations of `pipe.c` on one pipe: a ring buffer between the descriptors that are open
for reading and those that are open for writing.  Every operation works in sections under the
lock of the pipe.  A read or a write that has to wait gives up the lock and waits in a queue;
which wake-up ends the wait does not matter here, so a thread that waits may look again at any
time.

The bytes come out as they went in.  A read reports the end of the stream when no writer is
open, whatever the buffer holds, and the ring buffer takes its length as 16 bits of the `size_t`
that a caller passes.
-/

namespace RtThread.Pipe

open RtThread.Core
open RtThread.Ringbuffer (RtRingbuffer rtRingbufferInit rtRingbufferPut rtRingbufferGet
  rtRingbufferSpaceLen rtRingbufferPut_spec rtRingbufferGet_spec length_content)

/-- The size of the buffer, in a range that `rt_ringbuffer_init` accepts, and the memory that
`rt_malloc` returns for it. -/
structure Setup where
  alignLog : ℕ
  bufsz : ℕ
  pool : ℕ → UInt8
  bufsz_lt : bufsz < 0x8000
  bufsz_pos : 0 < bufsz / 2 ^ alignLog * 2 ^ alignLog

/-- `fd->flags & O_ACCMODE`. -/
inductive Mode
  | rdonly | wronly | rdwr
  deriving DecidableEq

def Mode.reads : Mode → Bool
  | .rdonly => true
  | .wronly => false
  | .rdwr => true

def Mode.writes : Mode → Bool
  | .rdonly => false
  | .wronly => true
  | .rdwr => true

/-- `struct rt_pipe_device`.  The three counters have 8 bits. -/
structure RtPipe where
  fifo : Option RtRingbuffer
  readers : ℕ
  writers : ℕ
  refCount : ℕ

/-- Where a thread is: outside, or in front of a section of a read or a write.  A write carries
the bytes that are left and the number of those that were accepted. -/
inductive Pc
  | out
  | reading (count : ℕ) (nonblock : Bool)
  | writing (pbuf : List UInt8) (ret : ℕ) (nonblock : Bool)
  deriving DecidableEq

/-- The pipe, the modes of the descriptors that are open, and the threads. -/
structure State (Tid : Type*) where
  pipe : RtPipe
  fds : List Mode
  pc : Tid → Pc

inductive Errno
  | eagain | epipe

inductive Event
  /-- A read returns these bytes; none is the end of the stream. -/
  | read (bytes : List UInt8)
  /-- A write has put these bytes into the buffer, and returns a number or waits. -/
  | wrote (bytes : List UInt8) (ret : Option ℕ)
  | failed (errno : Errno)
  | moved

inductive Action (Tid : Type*)
  | open (mode : Mode)
  | close (mode : Mode)
  /-- The part of a read in front of its first section. -/
  | read (tid : Tid) (count : ℕ) (nonblock : Bool)
  | readSection (tid : Tid)
  /-- The part of a write in front of its first section. -/
  | write (tid : Tid) (buf : List UInt8) (nonblock : Bool)
  | writeSection (tid : Tid)
  deriving DecidableEq

variable {Tid : Type*} [DecidableEq Tid]

def State.setPc (st : State Tid) (tid : Tid) (pc : Pc) : State Tid :=
  { st with pc := Function.update st.pc tid pc }

def State.setFifo (st : State Tid) (fifo : RtRingbuffer) : State Tid :=
  { st with pipe := { st.pipe with fifo := some fifo } }

def increment (counter : ℕ) : ℕ :=
  (counter + 1) % 0x100

def decrement (counter : ℕ) : ℕ :=
  (counter + 0xff) % 0x100

def pipeFopsOpen (setup : Setup) (st : State Tid) (mode : Mode) : State Tid :=
  let pipe := st.pipe
  { st with
    pipe :=
      { fifo :=
          if pipe.refCount = 0 then some (rtRingbufferInit setup.alignLog setup.pool setup.bufsz)
          else pipe.fifo
        readers := if mode.reads = true then increment pipe.readers else pipe.readers
        writers := if mode.writes = true then increment pipe.writers else pipe.writers
        refCount := increment pipe.refCount }
    fds := mode :: st.fds }

def pipeFopsClose (st : State Tid) (mode : Mode) : State Tid :=
  let pipe := st.pipe
  { st with
    pipe :=
      { fifo := if pipe.refCount = 1 then none else pipe.fifo
        readers := if mode.reads = true then decrement pipe.readers else pipe.readers
        writers := if mode.writes = true then decrement pipe.writers else pipe.writers
        refCount := decrement pipe.refCount }
    fds := st.fds.erase mode }

/-- The section of `pipe_fops_read`; the length is a `rt_uint16_t`. -/
def readSection (st : State Tid) (tid : Tid) (fifo : RtRingbuffer) (count : ℕ)
    (nonblock : Bool) : State Tid × Event :=
  if st.pipe.writers = 0 then (st.setPc tid .out, .read [])
  else
    let result := rtRingbufferGet fifo (count % 0x10000)
    let st := st.setFifo result.1
    if 0 < result.2.length then (st.setPc tid .out, .read result.2)
    else if nonblock = true then (st.setPc tid .out, .failed .eagain)
    else (st.setPc tid (.reading count nonblock), .moved)

/-- The section of `pipe_fops_write`, with `pbuf.length = count - ret`. -/
def writeSection (st : State Tid) (tid : Tid) (fifo : RtRingbuffer) (pbuf : List UInt8)
    (ret : ℕ) (nonblock : Bool) : State Tid × Event :=
  if st.pipe.readers = 0 then
    if ret = 0 then (st.setPc tid .out, .failed .epipe)
    else (st.setPc tid .out, .wrote [] (some ret))
  else
    let result := rtRingbufferPut fifo (pbuf.take (pbuf.length % 0x10000))
    let st := st.setFifo result.1
    let chunk := pbuf.take result.2
    let total := ret + result.2
    if result.2 = pbuf.length then (st.setPc tid .out, .wrote chunk (some total))
    else if nonblock = true then
      if total = 0 then (st.setPc tid .out, .failed .eagain)
      else (st.setPc tid .out, .wrote chunk (some total))
    else (st.setPc tid (.writing (pbuf.drop result.2) total nonblock), .wrote chunk none)

/-- A descriptor is used only while one is open. -/
def step (setup : Setup) (st : State Tid) : Action Tid → Option (State Tid × Event)
  | .open mode => some (pipeFopsOpen setup st mode, .moved)
  | .close mode => if mode ∈ st.fds then some (pipeFopsClose st mode, .moved) else none
  | .read tid count nonblock =>
    if st.pc tid = .out ∧ st.fds ≠ [] then
      if st.pipe.writers = 0 then some (st, .read [])
      else some (st.setPc tid (.reading count nonblock), .moved)
    else none
  | .readSection tid =>
    match st.pc tid, st.pipe.fifo with
    | .reading count nonblock, some fifo => some (readSection st tid fifo count nonblock)
    | _, _ => none
  | .write tid buf nonblock =>
    if st.pc tid = .out ∧ st.fds ≠ [] then
      if st.pipe.readers = 0 then some (st, .failed .epipe)
      else if buf = [] then some (st, .wrote [] (some 0))
      else some (st.setPc tid (.writing buf 0 nonblock), .moved)
    else none
  | .writeSection tid =>
    match st.pc tid, st.pipe.fifo with
    | .writing pbuf ret nonblock, some fifo =>
      some (writeSection st tid fifo pbuf ret nonblock)
    | _, _ => none

def machine (setup : Setup) : Machine (State Tid) (Action Tid) Event where
  step := step setup

/-- `rt_pipe_create`. -/
def created : State Tid where
  pipe := { fifo := none, readers := 0, writers := 0, refCount := 0 }
  fds := []
  pc _ := .out

/-- The pipe after its first descriptor was opened. -/
def opened (setup : Setup) (mode : Mode) : State Tid :=
  pipeFopsOpen setup created mode

/-! ## The stream -/

def RtPipe.content (pipe : RtPipe) : List UInt8 :=
  match pipe.fifo with
  | none => []
  | some fifo => Ringbuffer.content fifo

/-- The free bytes of the buffer. -/
def RtPipe.space (pipe : RtPipe) : ℕ :=
  match pipe.fifo with
  | none => 0
  | some fifo => rtRingbufferSpaceLen fifo

def Event.delivered : Event → List UInt8
  | .read bytes => bytes
  | _ => []

def Event.accepted : Event → List UInt8
  | .wrote bytes _ => bytes
  | _ => []

/-- The bytes that the reads of a trace return. -/
def delivered (trace : List (Action Tid × Event)) : List UInt8 :=
  trace.flatMap fun entry => entry.2.delivered

/-- The bytes that the writes of a trace accept. -/
def accepted (trace : List (Action Tid × Event)) : List UInt8 :=
  trace.flatMap fun entry => entry.2.accepted

/-- The count of the read that the step belongs to. -/
def readCount (st : State Tid) : Action Tid → Option ℕ
  | .read _ count _ => some count
  | .readSection tid =>
    match st.pc tid with
    | .reading count _ => some count
    | _ => none
  | _ => none

/-- The bytes of the non-blocking write that the step belongs to. -/
def nonblockingBytes (st : State Tid) : Action Tid → Option (List UInt8)
  | .write _ buf true => some buf
  | .writeSection tid =>
    match st.pc tid with
    | .writing pbuf _ true => some pbuf
    | _ => none
  | _ => none

/-- A step keeps the promises of the stream: a read of some bytes returns none only when there
are none and no writer is open, and a non-blocking write that ends in a buffer with free bytes
accepts as many as fit. -/
def KeepsPromise (setup : Setup) (st : State Tid) (act : Action Tid) : Prop :=
  ∀ next event, step setup st act = some (next, event) →
    (∀ count, readCount st act = some count → 0 < count → event = .read [] →
      st.pipe.content = [] ∧ ∀ mode ∈ st.fds, mode.writes = false) ∧
    (∀ bytes, nonblockingBytes st act = some bytes → bytes ≠ [] → 0 < st.pipe.space →
      event ≠ .moved → event.accepted.length = min bytes.length st.pipe.space)

/-- One descriptor stays open, and no more are opened than the counters can count. -/
def FdsSafe (st : State Tid) : Action Tid → Prop
  | .open _ => st.fds.length < 0xff
  | .close _ => 1 < st.fds.length
  | _ => True

/-- A read finds a writer or an empty buffer. -/
def ReadSafe (st : State Tid) : Prop :=
  st.pipe.writers = 0 → st.pipe.content = []

/-- A non-blocking write finds a reader, and the low 16 bits of its count are enough for the
free bytes of the buffer. -/
def WriteSafe (st : State Tid) (bytes : List UInt8) : Prop :=
  bytes ≠ [] → 0 < st.pipe.space → st.pipe.readers ≠ 0 ∧
    (bytes.length < 0x10000 ∨ st.pipe.space ≤ bytes.length % 0x10000)

def Good (st : State Tid) (act : Action Tid) : Prop :=
  FdsSafe st act ∧
  (∀ count ∈ readCount st act, 0 < count → ReadSafe st) ∧
  ∀ bytes ∈ nonblockingBytes st act, WriteSafe st bytes

instance (st : State Tid) (act : Action Tid) : Decidable (FdsSafe st act) :=
  match act with
  | .open _ => inferInstanceAs (Decidable (_ < _))
  | .close _ => inferInstanceAs (Decidable (_ < _))
  | .read _ _ _ => isTrue trivial
  | .readSection _ => isTrue trivial
  | .write _ _ _ => isTrue trivial
  | .writeSection _ => isTrue trivial

instance (st : State Tid) : Decidable (ReadSafe st) :=
  inferInstanceAs (Decidable (_ → _))

instance (st : State Tid) (bytes : List UInt8) : Decidable (WriteSafe st bytes) :=
  inferInstanceAs (Decidable (_ → _))

instance (st : State Tid) (act : Action Tid) : Decidable (Good st act) :=
  inferInstanceAs (Decidable (FdsSafe st act ∧
    (∀ count ∈ readCount st act, 0 < count → ReadSafe st) ∧
    ∀ bytes ∈ nonblockingBytes st act, WriteSafe st bytes))

/-- While a descriptor is open there is a buffer, and the counters are right. -/
structure Inv (st : State Tid) : Prop where
  fifo : ∃ rb, st.pipe.fifo = some rb ∧ Ringbuffer.Inv rb
  fds_ne : st.fds ≠ []
  fds_le : st.fds.length ≤ 0xff
  refCount : st.pipe.refCount = st.fds.length
  readers : st.pipe.readers = st.fds.countP Mode.reads
  writers : st.pipe.writers = st.fds.countP Mode.writes

variable {setup : Setup} {st next : State Tid} {event : Event}

theorem increment_eq {counter : ℕ} (hlt : counter < 0xff) : increment counter = counter + 1 :=
  Nat.mod_eq_of_lt (by omega)

theorem decrement_eq {counter : ℕ} (hpos : 0 < counter) (hle : counter ≤ 0xff) :
    decrement counter = counter - 1 := by
  rw [decrement]
  omega

/-- What a section does to the buffer, and what it leaves alone. -/
structure Streams (before : State Tid) (event : Event) (after : State Tid) : Prop where
  inv : Inv after
  bytes : before.pipe.content ++ event.accepted = event.delivered ++ after.pipe.content

variable {rb : RtRingbuffer}

omit [DecidableEq Tid] in
/-- The counters and the descriptors stay, and the buffer is another one. -/
theorem Inv.congr (hinv : Inv st) (hrb : Ringbuffer.Inv rb)
    (hpipe : next.pipe = { st.pipe with fifo := some rb }) (hfds : next.fds = st.fds) :
    Inv next := by
  refine ⟨⟨rb, by rw [hpipe], hrb⟩, hfds ▸ hinv.fds_ne, hfds ▸ hinv.fds_le, ?_, ?_, ?_⟩
  · rw [hpipe, hfds]
    exact hinv.refCount
  · rw [hpipe, hfds]
    exact hinv.readers
  · rw [hpipe, hfds]
    exact hinv.writers

omit [DecidableEq Tid] in
theorem content_eq (hfifo : st.pipe.fifo = some rb) : st.pipe.content = Ringbuffer.content rb := by
  rw [RtPipe.content, hfifo]

omit [DecidableEq Tid] in
theorem space_eq (hfifo : st.pipe.fifo = some rb) :
    st.pipe.space = rb.bufferSize - (Ringbuffer.content rb).length := by
  rw [RtPipe.space, hfifo, length_content]
  rfl

omit [DecidableEq Tid] in
theorem Streams.of_fifo {rb' : RtRingbuffer} (hinv : Inv st) (hfifo : st.pipe.fifo = some rb)
    (hrb : Ringbuffer.Inv rb') (hpipe : next.pipe = { st.pipe with fifo := some rb' })
    (hfds : next.fds = st.fds)
    (hbytes : Ringbuffer.content rb ++ event.accepted = event.delivered ++ Ringbuffer.content rb') :
    Streams st event next := by
  refine ⟨hinv.congr hrb hpipe hfds, ?_⟩
  have hfifo' : next.pipe.fifo = some rb' := by rw [hpipe]
  rw [content_eq hfifo, content_eq hfifo', hbytes]

omit [DecidableEq Tid] in
theorem Streams.idle (hinv : Inv st) (hpipe : next.pipe = st.pipe)
    (hfds : next.fds = st.fds) (haccepted : event.accepted = [])
    (hdelivered : event.delivered = []) : Streams st event next := by
  obtain ⟨rb, hfifo, hrb⟩ := hinv.fifo
  refine .of_fifo hinv hfifo hrb ?_ hfds ?_
  · rw [hpipe, ← hfifo]
  · rw [haccepted, hdelivered, List.append_nil, List.nil_append]

variable {mode : Mode}

omit [DecidableEq Tid] in
theorem streams_open (hinv : Inv st) (hroom : st.fds.length < 0xff) :
    Streams st .moved (pipeFopsOpen setup st mode) := by
  obtain ⟨rb, hfifo, hrb⟩ := hinv.fifo
  have href := hinv.refCount
  have hpos := List.length_pos_iff.2 hinv.fds_ne
  have hopen : ¬ st.pipe.refCount = 0 := by omega
  have hreaders : st.pipe.readers < 0xff := by
    rw [hinv.readers]
    exact List.countP_le_length.trans_lt hroom
  have hwriters : st.pipe.writers < 0xff := by
    rw [hinv.writers]
    exact List.countP_le_length.trans_lt hroom
  have hfifo' : (pipeFopsOpen setup st mode).pipe.fifo = some rb :=
    (if_neg hopen).trans hfifo
  refine ⟨⟨⟨rb, hfifo', hrb⟩, List.cons_ne_nil _ _, ?_, ?_, ?_, ?_⟩, ?_⟩
  · exact hroom
  · exact (increment_eq (href ▸ hroom)).trans (congrArg Nat.succ href)
  · change (if mode.reads = true then _ else _) = List.countP Mode.reads (mode :: st.fds)
    rw [List.countP_cons, increment_eq hreaders, hinv.readers]
    split <;> rfl
  · change (if mode.writes = true then _ else _) = List.countP Mode.writes (mode :: st.fds)
    rw [List.countP_cons, increment_eq hwriters, hinv.writers]
    split <;> rfl
  · rw [content_eq hfifo, content_eq hfifo']
    exact List.append_nil _

/-- Closing a descriptor takes it off the count of its kind. -/
theorem countP_erase_mode (kind : Mode → Bool) {fds : List Mode} (hmem : mode ∈ fds)
    (hle : fds.length ≤ 0xff) :
    (if kind mode = true then decrement (fds.countP kind) else fds.countP kind) =
      (fds.erase mode).countP kind := by
  have hperm := List.perm_cons_erase hmem
  have hcount := hperm.countP_eq kind
  have hlength : fds.countP kind ≤ fds.length := List.countP_le_length
  rw [List.countP_cons] at hcount
  split
  · next hkind =>
    rw [if_pos hkind] at hcount
    rw [decrement_eq (by omega) (hlength.trans hle)]
    omega
  · next hkind =>
    rw [if_neg hkind] at hcount
    omega

omit [DecidableEq Tid] in
theorem streams_close (hinv : Inv st) (hmem : mode ∈ st.fds) (hmore : 1 < st.fds.length) :
    Streams st .moved (pipeFopsClose st mode) := by
  obtain ⟨rb, hfifo, hrb⟩ := hinv.fifo
  have href := hinv.refCount
  have hle := hinv.fds_le
  have hlast : ¬ st.pipe.refCount = 1 := by omega
  have hlength := List.length_erase_of_mem hmem
  have hfifo' : (pipeFopsClose st mode).pipe.fifo = some rb := (if_neg hlast).trans hfifo
  refine ⟨⟨⟨rb, hfifo', hrb⟩, ?_, ?_, ?_, ?_, ?_⟩, ?_⟩
  · change st.fds.erase mode ≠ []
    rw [← List.length_pos_iff]
    omega
  · change (st.fds.erase mode).length ≤ 0xff
    omega
  · change decrement st.pipe.refCount = (st.fds.erase mode).length
    rw [decrement_eq (by omega) (href ▸ hle)]
    omega
  · change (if mode.reads = true then decrement st.pipe.readers else _) = _
    rw [hinv.readers]
    exact countP_erase_mode Mode.reads hmem hle
  · change (if mode.writes = true then decrement st.pipe.writers else _) = _
    rw [hinv.writers]
    exact countP_erase_mode Mode.writes hmem hle
  · rw [content_eq hfifo, content_eq hfifo']
    exact List.append_nil _

theorem streams_readSection {tid : Tid} {count : ℕ} {nonblock : Bool} (hinv : Inv st)
    (hfifo : st.pipe.fifo = some rb) (hrb : Ringbuffer.Inv rb)
    (hresult : readSection st tid rb count nonblock = (next, event)) : Streams st event next := by
  obtain ⟨⟨hget, hcontent⟩, -, hbytes⟩ := rtRingbufferGet_spec hrb (count % 0x10000)
  have hsplit := List.take_append_drop (count % 0x10000) (Ringbuffer.content rb)
  rw [← hbytes, ← hcontent] at hsplit
  simp only [readSection] at hresult
  split at hresult
  · cases hresult
    exact .idle hinv rfl rfl rfl rfl
  · split at hresult
    · cases hresult
      refine .of_fifo hinv hfifo hget rfl rfl ?_
      exact (List.append_nil _).trans hsplit.symm
    · next hnone =>
      have hempty := List.eq_nil_of_length_eq_zero (Nat.eq_zero_of_not_pos hnone)
      rw [hempty, List.nil_append] at hsplit
      split at hresult <;> cases hresult
      · exact .of_fifo hinv hfifo hget rfl rfl ((List.append_nil _).trans hsplit.symm)
      · exact .of_fifo hinv hfifo hget rfl rfl ((List.append_nil _).trans hsplit.symm)

theorem put_chunk (hrb : Ringbuffer.Inv rb) (pbuf : List UInt8) :
    let result := rtRingbufferPut rb (pbuf.take (pbuf.length % 0x10000))
    Ringbuffer.Inv result.1 ∧
      Ringbuffer.content result.1 = Ringbuffer.content rb ++ pbuf.take result.2 ∧
      result.2 = min (pbuf.length % 0x10000) (rb.bufferSize - (Ringbuffer.content rb).length) := by
  have hlength : (pbuf.take (pbuf.length % 0x10000)).length = pbuf.length % 0x10000 := by
    rw [List.length_take]
    omega
  obtain ⟨⟨hput, hcontent⟩, -, hcount⟩ :=
    rtRingbufferPut_spec hrb (pbuf.take (pbuf.length % 0x10000))
  rw [hlength] at hcontent hcount
  refine ⟨hput, ?_, hcount⟩
  rw [hcontent, hcount, List.take_take]
  congr 2
  omega

theorem streams_writeSection {tid : Tid} {pbuf : List UInt8} {ret : ℕ} {nonblock : Bool}
    (hinv : Inv st) (hfifo : st.pipe.fifo = some rb) (hrb : Ringbuffer.Inv rb)
    (hresult : writeSection st tid rb pbuf ret nonblock = (next, event)) :
    Streams st event next := by
  obtain ⟨hput, hcontent, -⟩ := put_chunk hrb pbuf
  simp only [writeSection] at hresult
  split at hresult
  · split at hresult <;> cases hresult
    · exact .idle hinv rfl rfl rfl rfl
    · exact .idle hinv rfl rfl rfl rfl
  · split at hresult
    · cases hresult
      exact .of_fifo hinv hfifo hput rfl rfl hcontent.symm
    · split at hresult
      · split at hresult <;> cases hresult
        · next hzero =>
          refine .of_fifo hinv hfifo hput rfl rfl ?_
          rw [hcontent, Nat.eq_zero_of_add_eq_zero_left hzero, List.take_zero]
          rfl
        · exact .of_fifo hinv hfifo hput rfl rfl hcontent.symm
      · cases hresult
        exact .of_fifo hinv hfifo hput rfl rfl hcontent.symm

variable {act : Action Tid}

/-- What a step puts into the buffer goes in last, and what it delivers comes out first. -/
theorem step_streams (hinv : Inv st) (hsafe : FdsSafe st act)
    (hstep : step setup st act = some (next, event)) : Streams st event next := by
  cases act with
  | «open» mode =>
    cases hstep
    exact streams_open hinv hsafe
  | close mode =>
    simp only [step] at hstep
    split at hstep
    · next hmem =>
      cases hstep
      exact streams_close hinv hmem hsafe
    · contradiction
  | read tid count nonblock =>
    simp only [step] at hstep
    split at hstep
    · split at hstep <;> cases hstep
      · exact .idle hinv rfl rfl rfl rfl
      · exact .idle hinv rfl rfl rfl rfl
    · contradiction
  | readSection tid =>
    simp only [step] at hstep
    split at hstep
    · next count nonblock fifo hpc hfifo =>
      obtain ⟨rb, hrb, hvalid⟩ := hinv.fifo
      obtain rfl := Option.some.inj (hfifo.symm.trans hrb)
      exact streams_readSection hinv hfifo hvalid (Option.some.inj hstep)
    · contradiction
  | write tid buf nonblock =>
    simp only [step] at hstep
    split at hstep
    · split at hstep
      · cases hstep
        exact .idle hinv rfl rfl rfl rfl
      · split at hstep <;> cases hstep
        · exact .idle hinv rfl rfl rfl rfl
        · exact .idle hinv rfl rfl rfl rfl
    · contradiction
  | writeSection tid =>
    simp only [step] at hstep
    split at hstep
    · next pbuf ret nonblock fifo hpc hfifo =>
      obtain ⟨rb, hrb, hvalid⟩ := hinv.fifo
      obtain rfl := Option.some.inj (hfifo.symm.trans hrb)
      exact streams_writeSection hinv hfifo hvalid (Option.some.inj hstep)
    · contradiction

/-! ## The promises -/

omit [DecidableEq Tid] in
theorem no_writers (hinv : Inv st) (hwriters : st.pipe.writers = 0) :
    ∀ mode ∈ st.fds, mode.writes = false := by
  rw [hinv.writers, List.countP_eq_zero] at hwriters
  intro mode hmem
  rw [← Bool.not_eq_true]
  exact hwriters mode hmem

theorem read_end {count : ℕ} (hread : readCount st act = some count)
    (hstep : step setup st act = some (next, .read [])) : st.pipe.writers = 0 := by
  by_contra hwriters
  cases act with
  | read tid count nonblock =>
    simp only [step, if_neg hwriters] at hstep
    split at hstep
    · exact Event.noConfusion (Prod.mk.inj (Option.some.inj hstep)).2
    · contradiction
  | readSection tid =>
    simp only [step] at hstep
    split at hstep
    · simp only [readSection, if_neg hwriters, Option.some.injEq] at hstep
      split at hstep
      · next hsome =>
        rw [Event.read.inj (Prod.mk.inj hstep).2] at hsome
        exact absurd hsome (Nat.lt_irrefl 0)
      · split at hstep
        · exact Event.noConfusion (Prod.mk.inj hstep).2
        · exact Event.noConfusion (Prod.mk.inj hstep).2
    · contradiction
  | «open» mode => contradiction
  | close mode => contradiction
  | write tid buf nonblock => contradiction
  | writeSection tid => contradiction

/-- The 16 bits that reach the ring buffer are enough. -/
theorem min_low_bits {length space : ℕ} (hspace : space < 0x10000)
    (hbits : length < 0x10000 ∨ space ≤ length % 0x10000) :
    min (length % 0x10000) space = min length space := by
  omega

theorem accepted_writeSection {tid : Tid} {pbuf : List UInt8} {ret : ℕ} (hrb : Ringbuffer.Inv rb)
    (hfifo : st.pipe.fifo = some rb) (hne : pbuf ≠ []) (hspace : 0 < st.pipe.space)
    (hsafe : WriteSafe st pbuf) (hresult : writeSection st tid rb pbuf ret true = (next, event)) :
    event.accepted.length = min pbuf.length st.pipe.space := by
  obtain ⟨hreaders, hbits⟩ := hsafe hne hspace
  obtain ⟨-, -, hcount⟩ := put_chunk hrb pbuf
  rw [space_eq hfifo] at hspace hbits ⊢
  have hchunk : (pbuf.take (rtRingbufferPut rb (pbuf.take (pbuf.length % 0x10000))).2).length =
      min pbuf.length (rb.bufferSize - (Ringbuffer.content rb).length) := by
    rw [List.length_take, hcount]
    omega
  simp only [writeSection, if_neg hreaders, if_true] at hresult
  split at hresult
  · rw [← (Prod.mk.inj hresult).2]
    exact hchunk
  · split at hresult
    · next hzero => omega
    · rw [← (Prod.mk.inj hresult).2]
      exact hchunk

theorem keepsPromise (hinv : Inv st) (hgood : Good st act) : KeepsPromise setup st act := by
  intro next event hstep
  obtain ⟨-, hread, hwrite⟩ := hgood
  refine ⟨?_, ?_⟩
  · rintro count hcount hpos rfl
    have hwriters := read_end hcount hstep
    exact ⟨hread count hcount hpos hwriters, no_writers hinv hwriters⟩
  · intro bytes hbytes hne hspace hmoved
    have hsafe := hwrite bytes hbytes
    cases act with
    | write tid buf nonblock =>
      cases nonblock with
      | false => contradiction
      | true =>
        cases hbytes
        simp only [step, if_neg (hsafe hne hspace).1, if_neg hne] at hstep
        split at hstep
        · exact absurd (Prod.mk.inj (Option.some.inj hstep)).2.symm hmoved
        · contradiction
    | writeSection tid =>
      simp only [step] at hstep
      split at hstep
      · next pbuf ret nonblock fifo hpc hfifo =>
        simp only [nonblockingBytes, hpc] at hbytes
        split at hbytes
        · next heq =>
          obtain ⟨rfl, rfl, rfl⟩ := Pc.writing.inj heq
          cases hbytes
          obtain ⟨rb, hrb, hvalid⟩ := hinv.fifo
          obtain rfl := Option.some.inj (hfifo.symm.trans hrb)
          exact accepted_writeSection hvalid hfifo hne hspace hsafe (Option.some.inj hstep)
        · contradiction
      · contradiction
    | «open» mode => contradiction
    | close mode => contradiction
    | read tid count nonblock => contradiction
    | readSection tid => contradiction

/-! ## Runs -/

omit [DecidableEq Tid] in
theorem fifo_opened (setup : Setup) (mode : Mode) :
    (opened setup mode : State Tid).pipe.fifo =
      some (rtRingbufferInit setup.alignLog setup.pool setup.bufsz) :=
  rfl

omit [DecidableEq Tid] in
theorem inv_opened (setup : Setup) (mode : Mode) : Inv (opened setup mode : State Tid) := by
  have hle : setup.bufsz / 2 ^ setup.alignLog * 2 ^ setup.alignLog ≤ setup.bufsz :=
    Nat.div_mul_le_self ..
  refine ⟨⟨_, fifo_opened setup mode, ?_⟩, List.cons_ne_nil _ _, ?_, rfl, ?_, ?_⟩
  · exact ⟨hle.trans_lt setup.bufsz_lt, setup.bufsz_pos, setup.bufsz_pos, le_rfl, Nat.zero_le _⟩
  · simp [opened, pipeFopsOpen, created]
  · cases mode <;> rfl
  · cases mode <;> rfl

omit [DecidableEq Tid] in
theorem content_opened (setup : Setup) (mode : Mode) :
    (opened setup mode : State Tid).pipe.content = [] := by
  rw [content_eq (fifo_opened setup mode), ← List.length_eq_zero_iff, length_content]
  rfl

/-- The bytes of the reads followed by those in the buffer are the bytes of the writes, whatever
the reads and the writes find. -/
theorem accepted_eq_delivered {trace : List (Action Tid × Event)} {last : State Tid}
    (hrun : (machine setup).RunWith FdsSafe (opened setup mode) trace last) :
    accepted trace = delivered trace ++ last.pipe.content := by
  refine (hrun.traceInvariant (fun past st => Inv st ∧
    accepted past = delivered past ++ st.pipe.content) ?_ ⟨inv_opened setup mode, ?_⟩).2
  · rintro past st act next event ⟨hinv, hbytes⟩ hsafe hstep
    obtain ⟨hnext, hmoved⟩ := step_streams hinv hsafe hstep
    refine ⟨hnext, ?_⟩
    rw [accepted, delivered, List.flatMap_append, List.flatMap_append, ← accepted, ← delivered,
      hbytes, List.append_assoc, List.append_assoc]
    congr 1
    simpa using hmoved
  · rw [content_opened]
    rfl

/-- In every run in which a descriptor stays open, reads find a writer or an empty buffer, and
the low 16 bits of the count of a non-blocking write are enough, the pipe is a stream of
bytes. -/
theorem pipe_is_stream {mode : Mode} {trace : List (Action Tid × Event)} {last : State Tid}
    (hrun : (machine setup).RunWith Good (opened setup mode) trace last) :
    delivered trace <+: accepted trace ∧
      (machine setup).RunWith (KeepsPromise setup) (opened setup mode) trace last := by
  have hbytes := accepted_eq_delivered (hrun.mono fun _ _ hgood => hgood.1)
  refine ⟨⟨last.pipe.content, hbytes.symm⟩, ?_⟩
  refine hrun.weaken Inv ?_ (fun _ _ => keepsPromise) (inv_opened setup mode)
  exact fun _ _ _ _ hinv hgood hstep => (step_streams hinv hgood.1 hstep).inv

def setup8 : Setup where
  alignLog := 2
  bufsz := 8
  pool _ := 0
  bufsz_lt := by decide
  bufsz_pos := by decide

/-- A writer fills the buffer and leaves; the reader takes what is there first. -/
def scheduleStream : List (Action ℕ) :=
  [.open .wronly, .write 0 [1, 2, 3, 4, 5, 6] true, .writeSection 0, .write 0 [7, 8, 9] true,
    .writeSection 0, .read 1 3 false, .readSection 1, .read 1 10 true, .readSection 1,
    .close .wronly, .read 1 10 false]

theorem isSome_scheduleStream : ((machine setup8).exec Good
    (opened setup8 .rdonly) scheduleStream).isSome = true := by
  decide

theorem pipe_is_stream_scheduleStream : ∃ trace, ∃ last : State ℕ,
    (machine setup8).RunWith Good (opened setup8 .rdonly) trace last ∧
      delivered trace = [1, 2, 3, 4, 5, 6, 7, 8] ∧ delivered trace <+: accepted trace := by
  have hrun := Machine.runWith_of_isSome scheduleStream isSome_scheduleStream
  exact ⟨_, _, hrun, by decide, (pipe_is_stream hrun).1⟩

/-- The writer leaves before its bytes were read. -/
def scheduleDropped : List (Action ℕ) :=
  [.open .wronly, .write 0 [1, 2] true, .writeSection 0, .close .wronly]

theorem exec_scheduleDropped : ((machine setup8).exec FdsSafe
    (opened setup8 .rdonly) scheduleDropped).map (fun result =>
      (result.2.map Prod.fst, result.1.pipe.content, result.1.pipe.writers, result.1.pc 1,
        result.1.fds)) = some (scheduleDropped, [1, 2], 0, .out, [.rdonly]) := by
  decide

/-- The next read reports the end of the stream. -/
theorem end_before_data : ∃ trace, ∃ last : State ℕ,
    (machine setup8).RunWith FdsSafe (opened setup8 .rdonly) trace last ∧
      trace.map Prod.fst = scheduleDropped ∧ last.pipe.content = [1, 2] ∧
      step setup8 last (.read 1 5 false) = some (last, .read []) ∧
      ¬ KeepsPromise setup8 last (.read 1 5 false) := by
  obtain ⟨⟨last, trace⟩, hexec, hfacts⟩ := Option.map_eq_some_iff.1 exec_scheduleDropped
  simp only [Prod.mk.injEq] at hfacts
  obtain ⟨htrace, hcontent, hwriters, hpc, hfds⟩ := hfacts
  have hstep : step setup8 last (.read 1 5 false) = some (last, .read []) := by
    simp [step, hpc, hfds, hwriters]
  refine ⟨trace, last, Machine.runWith_of_exec _ hexec, htrace, hcontent, hstep, ?_⟩
  intro hkeeps
  have hempty := ((hkeeps _ _ hstep).1 5 rfl (by decide) rfl).1
  rw [hcontent] at hempty
  contradiction

end RtThread.Pipe
