import Galaxz.Lib.Machine
import Mathlib.Data.Int.Notation
import Mathlib.Data.Nat.Notation
import Mathlib.Logic.Function.Basic

/-!
# `core/llm/limiter.py`: `ProviderLimiter`

Any number of threads call `submit`; workers of the executors run the futures, callers wait for them
and cancel them. A step is one effect on what the threads share: a look-up under the lock, one operation
of a semaphore, of an executor or of a future. The order of steps is arbitrary.

A permit is in the semaphore, in the hands of a `submit` call between its `acquire` and its hand-over to
the executor, or with a future until the release that `add_done_callback` arranged has run.
-/

namespace Galaxz

/-- `_Slot`: the initial and the current value of its `BoundedSemaphore`. -/
structure Slot where
  maxConcurrent : ℕ
  free : ℕ
deriving DecidableEq

/-- The state of a `concurrent.futures.Future`. -/
inductive FutureState where
  | pending
  | running
  | finished
  | cancelled
deriving DecidableEq

/-- `future.done()`. -/
def FutureState.done : FutureState → Bool
  | .pending | .running => false
  | .finished | .cancelled => true

/-- A future of the executor of a slot. -/
structure LlmFuture where
  key : String
  /-- The `submit` call that got it. -/
  call : ℕ
  state : FutureState := .pending
  /-- `add_done_callback` stored the release in it. -/
  callback : Bool := false
  /-- The release has run. -/
  released : Bool := false
deriving DecidableEq

/-- Why a `submit` call raised. -/
inductive SubmitError where
  /-- `BoundedSemaphore` or `ThreadPoolExecutor` refuses the bound. -/
  | valueError
  | queueTimeout
  /-- `executor.submit` raised. -/
  | refused
deriving DecidableEq

/-- How far a `submit` call is. -/
inductive SubmitPhase where
  /-- In `semaphore.acquire`. -/
  | waiting
  /-- Between `acquire` and `executor.submit`. -/
  | holding
  /-- Between `executor.submit` and `add_done_callback`. -/
  | submitted (future : ℕ)
  | returned (future : ℕ)
  | raised (error : SubmitError)
deriving DecidableEq

/-- A call of `submit`. -/
structure SubmitCall where
  key : String
  phase : SubmitPhase
  /-- How often the permit of the call was released. -/
  releases : ℕ := 0
deriving DecidableEq

/-- The limiter, its calls and its futures. -/
structure ProviderLimiter where
  slots : String → Option Slot := fun _ => none
  calls : List SubmitCall := []
  futures : List LlmFuture := []
  /-- A `release` raised `ValueError: Semaphore released too many times`. -/
  overReleased : Bool := false

/-- One effect of some thread. -/
inductive LimiterAction where
  /-- A new call looks its slot up. -/
  | submit (key : String) (maxConcurrent : ℤ)
  | acquire (call : ℕ)
  | queueTimeout (call : ℕ)
  | accept (call : ℕ)
  | refuse (call : ℕ)
  | addDoneCallback (call : ℕ)
  | start (future : ℕ)
  /-- The worker sets the result or the exception. -/
  | finish (future : ℕ)
  | cancel (future : ℕ)
  /-- `future.result(timeout=..)` of `call_llm` expires, and the handler cancels the future. -/
  | callerTimeout (future : ℕ)
  /-- The thread that ended the future runs its callbacks. -/
  | invokeCallbacks (future : ℕ)

namespace ProviderLimiter

/-- The next value of a slot. -/
def setSlot (s : ProviderLimiter) (key : String) (slot : Slot) : ProviderLimiter :=
  { s with slots := Function.update s.slots key (some slot) }

/-- `_slot`: the slot of the key, made by the first call for it. -/
def slot (s : ProviderLimiter) (key : String) (maxConcurrent : ℤ) : Option ProviderLimiter :=
  match s.slots key with
  | some _ => some s
  | none =>
    if maxConcurrent < 1 then none
    else some (s.setSlot key ⟨maxConcurrent.toNat, maxConcurrent.toNat⟩)

/-- The next phase of a call. -/
def setPhase (s : ProviderLimiter) (i : ℕ) (phase : SubmitPhase) : ProviderLimiter :=
  { s with calls := s.calls.modify i fun c => { c with phase } }

/-- The next value of a future. -/
def setFuture (s : ProviderLimiter) (j : ℕ) (future : LlmFuture) : ProviderLimiter :=
  { s with futures := s.futures.modify j fun _ => future }

/-- `semaphore.acquire()` of call `i`, when the semaphore is not zero. -/
def take (s : ProviderLimiter) (i : ℕ) (key : String) : ProviderLimiter :=
  match s.slots key with
  | none => s
  | some slot =>
    if slot.free = 0 then s
    else (s.setSlot key { slot with free := slot.free - 1 }).setPhase i .holding

/-- One more release for the permit of call `i`. -/
def countRelease (s : ProviderLimiter) (i : ℕ) : ProviderLimiter :=
  { s with calls := s.calls.modify i fun c => { c with releases := c.releases + 1 } }

/-- A new call. -/
def addCall (s : ProviderLimiter) (key : String) (phase : SubmitPhase) : ProviderLimiter :=
  { s with calls := s.calls ++ [{ key, phase }] }

/-- A new future, of call `i`. -/
def addFuture (s : ProviderLimiter) (key : String) (i : ℕ) : ProviderLimiter :=
  { s with futures := s.futures ++ [{ key, call := i }] }

/-- `semaphore.release()` for the permit of call `i`. -/
def release (s : ProviderLimiter) (i : ℕ) (key : String) : ProviderLimiter :=
  match s.slots key with
  | none => s
  | some slot =>
    if slot.free < slot.maxConcurrent then
      (s.setSlot key { slot with free := slot.free + 1 }).countRelease i
    else { s with overReleased := true }

/-- The release arranged by `add_done_callback` runs. -/
def runCallback (s : ProviderLimiter) (j : ℕ) (future : LlmFuture) : ProviderLimiter :=
  (s.setFuture j { future with released := true }).release future.call future.key

/-- `future.cancel()`: only a future that no worker has started is cancelled. -/
def cancelFuture (s : ProviderLimiter) (j : ℕ) : ProviderLimiter :=
  match s.futures[j]? with
  | none => s
  | some future =>
    if future.state = .pending then s.setFuture j { future with state := .cancelled } else s

/-- The effect of an action; one that is not possible in the state changes nothing. -/
def step : LimiterAction → ProviderLimiter → ProviderLimiter
  | .submit key maxConcurrent, s =>
    match s.slot key maxConcurrent with
    | none => s.addCall key (.raised .valueError)
    | some s => s.addCall key .waiting
  | .acquire i, s =>
    match s.calls[i]? with
    | some ⟨key, .waiting, _⟩ => s.take i key
    | _ => s
  | .queueTimeout i, s =>
    match s.calls[i]? with
    | some ⟨_, .waiting, _⟩ => s.setPhase i (.raised .queueTimeout)
    | _ => s
  | .accept i, s =>
    match s.calls[i]? with
    | some ⟨key, .holding, _⟩ => (s.addFuture key i).setPhase i (.submitted s.futures.length)
    | _ => s
  | .refuse i, s =>
    match s.calls[i]? with
    | some ⟨key, .holding, _⟩ => (s.setPhase i (.raised .refused)).release i key
    | _ => s
  | .addDoneCallback i, s =>
    match s.calls[i]? with
    | some ⟨_, .submitted j, _⟩ =>
      match s.futures[j]? with
      | none => s
      | some future =>
        -- a future that is done already runs the callback in the thread that adds it
        if future.state.done then (s.setPhase i (.returned j)).runCallback j future
        else (s.setPhase i (.returned j)).setFuture j { future with callback := true }
    | _ => s
  | .start j, s =>
    match s.futures[j]? with
    | none => s
    | some future =>
      if future.state = .pending then s.setFuture j { future with state := .running } else s
  | .finish j, s =>
    match s.futures[j]? with
    | none => s
    | some future =>
      if future.state = .running then s.setFuture j { future with state := .finished } else s
  | .cancel j, s => s.cancelFuture j
  | .callerTimeout j, s => s.cancelFuture j
  | .invokeCallbacks j, s =>
    match s.futures[j]? with
    | none => s
    | some future =>
      if future.state.done ∧ future.callback ∧ ¬ future.released then s.runCallback j future else s

/-- The limiter after the actions, from a new one. -/
def run (actions : List LimiterAction) : ProviderLimiter := Machine.run step actions {}

/-! ## Where the permits are -/

/-- The calls for the key that hold a permit of their own. -/
def holding (s : ProviderLimiter) (key : String) : ℕ :=
  s.calls.countP fun c => c.key = key ∧ c.phase = .holding

/-- The futures for the key that were submitted and are not done. -/
def inFlight (s : ProviderLimiter) (key : String) : ℕ :=
  s.futures.countP fun f => f.key = key ∧ f.state.done = false

/-- The futures for the key that are done and whose release has not run yet. -/
def settling (s : ProviderLimiter) (key : String) : ℕ :=
  s.futures.countP fun f => f.key = key ∧ f.state.done = true ∧ f.released = false

/-- The permit of the call has gone back. -/
def Returned (s : ProviderLimiter) (c : SubmitCall) : Prop :=
  match c.phase with
  | .submitted j | .returned j => ∃ f, s.futures[j]? = some f ∧ f.released = true
  | .raised error => error = .refused
  | .waiting | .holding => False

end ProviderLimiter

end Galaxz
