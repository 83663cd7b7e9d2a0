import RtThread.Core.Recorder
import RtThread.Kernel.Thread

set_option linter.all false

/-!
# Condition variables

A condition variable of `pthread_cond.c` is a semaphore.  A waiting thread unlocks the
mutex and takes the semaphore in two steps; a signal releases the semaphore once, and
a broadcast releases it until it can take it itself.  So a broadcast resumes all threads
that sleep, but leaves a single token for those between the two steps, and a
token that is left can be taken by a thread that comes later.
-/

namespace RtThread.Pthreads

open RtThread.Core
open RtThread.Kernel (Err)

/-- The semaphore of a condition variable, which is first in, first out. -/
structure CondSem (Tid : Type*) where
  value : ℕ
  suspendThread : List Tid

/-- How `rt_sem_take` goes on. -/
inductive SemTake
  | taken | empty | sleeps
  deriving DecidableEq

section Semaphore

variable {Tid : Type*}

namespace CondSem

variable (sem : CondSem Tid)

def take (tid : Tid) (time : ℤ) : CondSem Tid × SemTake :=
  if 0 < sem.value then ({ sem with value := sem.value - 1 }, .taken)
  else if time = 0 then (sem, .empty)
  else ({ sem with suspendThread := sem.suspendThread ++ [tid] }, .sleeps)

/-- `rt_sem_release`, with the thread that it resumes; `value` has 16 bits. -/
def release : CondSem Tid × Option Tid :=
  match sem.suspendThread with
  | thread :: rest => ({ sem with suspendThread := rest }, some thread)
  | [] => ({ sem with value := (sem.value + 1) % 0x10000 }, none)

end CondSem

/-- The loop of `pthread_cond_broadcast` on the value and the list, with the threads that
it resumes. -/
def broadcastLoop : ℕ → List Tid → CondSem Tid × List Tid
  | 0, thread :: rest =>
    let (sem, resumed) := broadcastLoop 0 rest
    (sem, thread :: resumed)
  -- the token that was released is taken back, and released again
  | 0, [] => (⟨1, []⟩, [])
  | value + 1, thread :: rest => (⟨value, rest⟩, [thread])
  | value + 1, [] => (⟨value + 1, []⟩, [])

def CondSem.broadcast (sem : CondSem Tid) : CondSem Tid × List Tid :=
  broadcastLoop sem.value sem.suspendThread

/-- No token is left while a thread sleeps. -/
def CondSem.Settled (sem : CondSem Tid) : Prop :=
  sem.suspendThread ≠ [] → sem.value = 0

variable {sem : CondSem Tid}

theorem broadcastLoop_zero (threads : List Tid) :
    broadcastLoop 0 threads = (⟨1, []⟩, threads) := by
  induction threads with
  | nil => rfl
  | cons thread rest ih => rw [broadcastLoop, ih]

theorem CondSem.broadcast_eq (hsettled : sem.Settled) :
    sem.broadcast = (⟨max sem.value 1, []⟩, sem.suspendThread) := by
  rw [CondSem.broadcast]
  cases hthreads : sem.suspendThread with
  | nil =>
    cases hvalue : sem.value with
    | zero => rfl
    | succ value => rw [broadcastLoop, max_eq_left (Nat.succ_pos value)]
  | cons thread rest =>
    have hvalue : sem.value = 0 := hsettled (by rw [hthreads]; exact List.cons_ne_nil thread rest)
    rw [hvalue, broadcastLoop_zero]
    rfl

theorem CondSem.Settled.take (hsettled : sem.Settled) (tid : Tid) (time : ℤ) :
    (sem.take tid time).1.Settled := by
  rw [CondSem.take]
  split
  · rename_i hpos
    intro hthreads
    exact absurd (hsettled hthreads) (Nat.pos_iff_ne_zero.1 hpos)
  · rename_i hzero
    split
    · exact hsettled
    · exact fun _ => Nat.eq_zero_of_not_pos hzero

theorem CondSem.Settled.release (hsettled : sem.Settled) : sem.release.1.Settled := by
  rw [CondSem.release]
  split
  · rename_i thread rest hthreads
    exact fun _ => hsettled (by rw [hthreads]; exact List.cons_ne_nil thread rest)
  · rename_i hthreads
    exact fun hnonempty => absurd hthreads hnonempty

theorem CondSem.Settled.broadcast (hsettled : sem.Settled) : sem.broadcast.1.Settled := by
  rw [CondSem.broadcast_eq hsettled]
  exact fun hnonempty => absurd rfl hnonempty

theorem CondSem.Settled.erase [DecidableEq Tid] (hsettled : sem.Settled) (tid : Tid) :
    CondSem.Settled { sem with suspendThread := sem.suspendThread.erase tid } := by
  intro hnonempty
  refine hsettled fun hnil => hnonempty ?_
  change sem.suspendThread.erase tid = []
  rw [hnil]
  rfl

end Semaphore

end RtThread.Pthreads
