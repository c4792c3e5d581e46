import Mathlib.Logic.Function.Basic
import ESPressioThreads.Lib.ReadWriteLock
import ESPressioThreads.Lib.Transition
/-!
# The synchronized values

`Mutex<T>` and `ReadWriteMutex<T>`: a value behind a lock, an optional
comparator and an optional change callback. The two classes differ only in the
mode in which they take the lock to read.

Every call is an operation of its own with a program counter between the steps
that other calls can come between, so a call that `OnChange` makes is an
operation like any other. A `Try` method may also fail to get a free lock.
-/

namespace ESPressio.ThreadSafe

open ReadWriteLock Transition

abbrev OpId := Nat

inductive Wrapper
  | mutex
  | readWriteMutex
  deriving DecidableEq, Repr

/-- The mode of `lock_guard` and `shared_lock` on `_mutex` of the class. -/
def Wrapper.readMode : Wrapper → Mode
  | .mutex => .exclusive
  | .readWriteMutex => .shared

variable {T : Type}

inductive Method (T : Type)
  | get
  | tryGet (defaultValue : T)
  | set (value : T)
  | trySet (value : T)
  | isLockedRead
  | isLockedWrite
  | withReadLock
  | withWriteLock
  | tryWithReadLock
  | tryWithWriteLock
  | withSharedReadLock
  | tryWithSharedReadLock
  deriving DecidableEq, Repr

namespace Method

/-- The mode in which a method takes the lock: `WithReadLock` passes a mutable
reference on, so it takes it exclusively. -/
def mode (k : Wrapper) : Method T → Mode
  | .get | .tryGet _ | .isLockedRead | .withSharedReadLock | .tryWithSharedReadLock => k.readMode
  | .set _ | .trySet _ | .isLockedWrite | .withReadLock | .withWriteLock | .tryWithReadLock | .tryWithWriteLock =>
    .exclusive

/-- `try_lock` instead of `lock`. -/
def tries : Method T → Bool
  | .tryGet _ | .trySet _ | .isLockedRead | .isLockedWrite | .tryWithReadLock | .tryWithWriteLock
  | .tryWithSharedReadLock => true
  | .get | .set _ | .withReadLock | .withWriteLock | .withSharedReadLock => false

/-- `IsLockedRead` and `IsLockedWrite`. -/
def probes : Method T → Bool
  | .isLockedRead | .isLockedWrite => true
  | _ => false

/-- The methods whose callback gets a `T&`. -/
def mutable : Method T → Bool
  | .withReadLock | .withWriteLock | .tryWithReadLock | .tryWithWriteLock => true
  | _ => false

/-- The methods that may write the value, or announce a writer. -/
def writes : Method T → Bool
  | .set _ | .trySet _ | .isLockedWrite | .withReadLock | .withWriteLock | .tryWithReadLock | .tryWithWriteLock => true
  | .get | .tryGet _ | .isLockedRead | .withSharedReadLock | .tryWithSharedReadLock => false

end Method

inductive Outcome (T : Type)
  | value (v : T)
  | valueOr (ok : Bool) (v : T)
  | done
  | tried (ok : Bool)
  | isLocked (locked : Bool)
  deriving DecidableEq, Repr

/-- What a method returns when it did not get the lock. -/
def Method.refused : Method T → Outcome T
  | .tryGet defaultValue => .valueOr false defaultValue
  | .isLockedRead | .isLockedWrite => .isLocked true
  | .trySet _ | .tryWithReadLock | .tryWithWriteLock | .tryWithSharedReadLock => .tried false
  | .get | .set _ | .withReadLock | .withWriteLock | .withSharedReadLock => .done

/-- What a method returns when it got the lock and the value was `v`. -/
def Method.outcome (v : T) : Method T → Outcome T
  | .get => .value v
  | .tryGet _ => .valueOr true v
  | .isLockedRead | .isLockedWrite => .isLocked false
  | .trySet _ | .tryWithReadLock | .tryWithWriteLock | .tryWithSharedReadLock => .tried true
  | .set _ | .withReadLock | .withWriteLock | .withSharedReadLock => .done

/-- The value `Set` and `TrySet` were called with. -/
def Method.argument : Method T → Option T
  | .set value | .trySet value => some value
  | _ => none

/-- Where a call is. From `section` to `unlock` it holds the lock, and from
`probed` on its caller owes a `Release`. -/
inductive Pc (T : Type)
  | idle
  | acquire (c : Method T)
  | section (c : Method T)
  | store (c : Method T) (oldValue value : T)
  | unlock (c : Method T) (o : Outcome T) (change : Option (T × T))
  | onChange (c : Method T) (o : Outcome T) (oldValue value : T)
  | probed (c : Method T)
  | returned (c : Method T) (o : Outcome T)
  deriving DecidableEq, Repr

structure Machine (T : Type) where
  value : T
  lock : State OpId
  ops : OpId → Pc T

inductive Action (T : Type)
  | call (i : OpId) (c : Method T)
  | step (i : OpId) (ok : Bool)
  /-- A callback writes through its `T&`. -/
  | write (i : OpId) (v : T)
  deriving DecidableEq, Repr

def Machine.goto (m : Machine T) (i : OpId) (pc : Pc T) : Machine T := { m with ops := Function.update m.ops i pc }

section
variable (k : Wrapper) (equals : T → T → Bool) (observed : Bool)

/-- The body of a method, with the lock held. `equals` is `_equals`. -/
def body (m : Machine T) (i : OpId) (c : Method T) : Machine T :=
  match c.argument with
  | some value =>
    m.goto i (if equals m.value value then .unlock c (c.outcome m.value) none else .store c m.value value)
  | none => m.goto i (.unlock c (c.outcome m.value) none)

/-- One step of operation `i`; `observed` when `OnChange` is installed. -/
def stepOp (m : Machine T) (i : OpId) (ok : Bool) : Option (Machine T) :=
  match m.ops i with
  | .idle | .returned _ _ => none
  | .acquire c =>
    if c.tries && !ok then some (m.goto i (.returned c c.refused))
    else
      match m.lock.acquire i (c.mode k) with
      | some lock => some ({ m with lock := lock }.goto i (.section c))
      | none => if c.tries then some (m.goto i (.returned c c.refused)) else none
  | .section c => some (body equals m i c)
  | .store c oldValue value =>
    some ({ m with value := value }.goto i
      (.unlock c (c.outcome oldValue) (if observed then some (oldValue, value) else none)))
  | .unlock c o change =>
    -- A probe has unlocked again when it reports that the lock was free.
    let m := { m with lock := m.lock.release i (c.mode k) }
    some (match change with
      | some (oldValue, value) => m.goto i (.onChange c o oldValue value)
      | none => m.goto i (if c.probes then .probed c else .returned c o))
  | .onChange c o _ _ => some (m.goto i (.returned c o))
  -- `ReleaseReadLock` or `ReleaseWriteLock`.
  | .probed c => some ({ m with lock := m.lock.release i (c.mode k) }.goto i (.returned c (.isLocked false)))

def step (m : Machine T) : Action T → Option (Machine T)
  | .call i c =>
    match m.ops i with
    | .idle => some (m.goto i (.acquire c))
    | _ => none
  | .step i ok => stepOp k equals observed m i ok
  | .write i v =>
    match m.ops i with
    | .section c => if c.mutable then some { m with value := v } else none
    | _ => none

end

/-! ## Runs -/

inductive Event (T : Type)
  | acquired (i : OpId)
  | read (i : OpId) (v : T)
  | compared (i : OpId) (oldValue value : T) (equal : Bool)
  | changed (i : OpId) (oldValue value : T)
  | unlocked (i : OpId)
  | delivered (i : OpId) (oldValue value : T)
  /-- `IsLockedRead` or `IsLockedWrite` returns `false`. -/
  | probed (i : OpId)
  | released (i : OpId) (held : Bool)
  deriving DecidableEq, Repr

def Event.op : Event T → OpId
  | .acquired i | .read i _ | .compared i _ _ _ | .changed i _ _ | .unlocked i | .delivered i _ _ | .probed i
  | .released i _ => i

section
variable (k : Wrapper) (equals : T → T → Bool) (observed : Bool)

/-- What the body of a method shows. -/
def bodyEvent (v : T) (i : OpId) : Method T → Option (Event T)
  | .set value | .trySet value => some (.compared i v value (equals v value))
  | .get | .tryGet _ => some (.read i v)
  | _ => none

def event (m : Machine T) : Action T → Option (Event T)
  | .step i ok =>
    match m.ops i with
    | .acquire c =>
      if c.tries && !ok then none else (m.lock.acquire i (c.mode k)).map fun _ => .acquired i
    | .section c => bodyEvent equals m.value i c
    | .store _ oldValue value => some (.changed i oldValue value)
    | .unlock c _ _ => some (if c.probes then .probed i else .unlocked i)
    | .onChange _ _ oldValue value => some (.delivered i oldValue value)
    | .probed c => some (.released i (m.lock.Holds i (c.mode k)))
    | .idle | .returned _ _ => none
  | .call _ _ | .write _ _ => none

/-- A constructed value, which nobody has used. -/
def Machine.start (initial : T) : Machine T := ⟨initial, .free, fun _ => .idle⟩

/-- Runs of a value with the comparison `equals`; `observed` when it has a
change callback. -/
def system (initial : T) : System (Machine T × List (Event T)) (Action T) :=
  System.logged { init := fun m => m = .start initial, step := step k equals observed } (event k equals)

/-- One step with what it shows. -/
inductive Moved (m : Machine T) : Action T → Machine T → Option (Event T) → Prop
  | call (i : OpId) (c : Method T) : m.ops i = .idle → Moved m (.call i c) (m.goto i (.acquire c)) none
  | refused (i : OpId) (ok : Bool) (c : Method T) : m.ops i = .acquire c → c.tries = true →
      Moved m (.step i ok) (m.goto i (.returned c c.refused)) none
  | acquired (i : OpId) (ok : Bool) (c : Method T) (lock : State OpId) : m.ops i = .acquire c →
      m.lock.acquire i (c.mode k) = some lock → (c.tries = true → ok = true) →
      Moved m (.step i ok) ({ m with lock := lock }.goto i (.section c)) (some (.acquired i))
  | compared (i : OpId) (ok : Bool) (c : Method T) (value : T) : m.ops i = .section c → c.argument = some value →
      Moved m (.step i ok)
        (m.goto i (if equals m.value value then .unlock c (c.outcome m.value) none else .store c m.value value))
        (some (.compared i m.value value (equals m.value value)))
  | passed (i : OpId) (ok : Bool) (c : Method T) : m.ops i = .section c → c.argument = none →
      Moved m (.step i ok) (m.goto i (.unlock c (c.outcome m.value) none)) (bodyEvent equals m.value i c)
  | stored (i : OpId) (ok : Bool) (c : Method T) (oldValue value : T) : m.ops i = .store c oldValue value →
      Moved m (.step i ok) ({ m with value := value }.goto i
        (.unlock c (c.outcome oldValue) (if observed then some (oldValue, value) else none)))
        (some (.changed i oldValue value))
  | unlocked (i : OpId) (ok : Bool) (c : Method T) (o : Outcome T) (change : Option (T × T)) :
      m.ops i = .unlock c o change →
      Moved m (.step i ok) ({ m with lock := m.lock.release i (c.mode k) }.goto i
        (match change with
          | some (oldValue, value) => .onChange c o oldValue value
          | none => if c.probes then .probed c else .returned c o))
        (some (if c.probes then .probed i else .unlocked i))
  | delivered (i : OpId) (ok : Bool) (c : Method T) (o : Outcome T) (oldValue value : T) :
      m.ops i = .onChange c o oldValue value →
      Moved m (.step i ok) (m.goto i (.returned c o)) (some (.delivered i oldValue value))
  | released (i : OpId) (ok : Bool) (c : Method T) : m.ops i = .probed c →
      Moved m (.step i ok)
        ({ m with lock := m.lock.release i (c.mode k) }.goto i (.returned c (.isLocked false)))
        (some (.released i (m.lock.Holds i (c.mode k))))
  | written (i : OpId) (v : T) (c : Method T) : m.ops i = .section c → c.mutable = true →
      Moved m (.write i v) { m with value := v } none

end

section
variable {k : Wrapper} {equals : T → T → Bool} {observed : Bool} {m m' : Machine T}

theorem step_moved {a : Action T} (h : step k equals observed m a = some m') :
    Moved k equals observed m a m' (event k equals m a) := by
  cases a with
  | call i c =>
    simp only [step] at h
    split at h <;> cases h
    exact .call i c ‹_›
  | write i v =>
    simp only [step] at h
    split at h
    · split at h <;> cases h
      exact .written i v _ ‹_› ‹_›
    · cases h
  | step i ok =>
    simp only [step, stepOp] at h
    split at h <;> rename_i hpc <;> simp only [event, hpc]
    case h_1 | h_2 => cases h
    case h_3 c =>
      split at h
      · rename_i ht
        cases h
        rw [if_pos ht]
        exact .refused i ok c hpc (Bool.and_eq_true_iff.1 ht).1
      · rename_i ht
        rw [if_neg ht]
        split at h <;> rename_i hl <;> rw [hl]
        · cases h
          exact .acquired i ok c _ hpc hl (by simpa using ht)
        · split at h <;> cases h
          exact .refused i ok c hpc ‹_›
    case h_4 c =>
      cases h
      simp only [body]
      cases hc : c.argument with
      | none => exact .passed i ok c hpc hc
      | some value =>
        have he : bodyEvent equals m.value i c = some (.compared i m.value value (equals m.value value)) := by
          cases c <;> cases hc <;> rfl
        rw [he]
        exact .compared i ok c value hpc hc
    case h_5 c oldValue value =>
      cases h
      exact .stored i ok c oldValue value hpc
    case h_6 c o change =>
      cases h
      have hm : Moved k equals observed m (.step i ok) _ _ := .unlocked i ok c o change hpc
      cases change <;> exact hm
    case h_7 c o oldValue value =>
      cases h
      exact .delivered i ok c o oldValue value hpc
    case h_8 c =>
      cases h
      exact .released i ok c hpc

@[simp] theorem Machine.goto_value (i : OpId) (pc : Pc T) : (m.goto i pc).value = m.value := rfl
@[simp] theorem Machine.goto_lock (i : OpId) (pc : Pc T) : (m.goto i pc).lock = m.lock := rfl

theorem Machine.goto_ops (i j : OpId) (pc : Pc T) :
    (m.goto i pc).ops j = if j = i then pc else m.ops j := by
  simp [Machine.goto, Function.update_apply]

end

end ESPressio.ThreadSafe
