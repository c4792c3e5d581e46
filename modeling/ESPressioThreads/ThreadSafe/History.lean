import ESPressioThreads.Lib.Chain
import ESPressioThreads.ThreadSafe.Probes
/-!
# The history of a value

`Set` and `TrySet` compare and store under the lock and call `OnChange` after
it, so notifications of different tasks may be delivered in any order. The
pairs they deliver are still the history of the value: each is the store of its
call, and the stores form one chain.
-/

namespace ESPressio.ThreadSafe

open ReadWriteLock Transition

variable {T : Type}

/-! ## Chains -/

/-- `(old, new)` pairs that lead from one value to another, each `new` unequal
to its `old`. -/
abbrev Chained (equals : T → T → Bool) : T → List (T × T) → T → Prop :=
  Chain.Chained fun oldValue value => equals oldValue value = false

def Event.change : Event T → Option (T × T)
  | .changed _ oldValue value => some (oldValue, value)
  | _ => none

/-- The pairs of the stores, in their order. -/
def changes (l : List (Event T)) : List (T × T) := l.filterMap Event.change

/-- What the log shows of one call. -/
def trace (i : OpId) (l : List (Event T)) : List (Event T) := l.filter fun e => e.op = i

@[simp] theorem changes_append (l l' : List (Event T)) : changes (l ++ l') = changes l ++ changes l' :=
  List.filterMap_append

@[simp] theorem trace_append (i : OpId) (l l' : List (Event T)) : trace i (l ++ l') = trace i l ++ trace i l' :=
  List.filter_append ..

/-! ## The domain -/

/-- No probes, and no writes through a mutable reference. -/
def Plain (_ : Machine T × List (Event T)) : Action T → Prop
  | .call _ c => c.probes = false
  | .write _ _ => False
  | .step _ _ => True

instance (x : Machine T × List (Event T)) : ∀ a, Decidable (Plain x a)
  | .call _ c => inferInstanceAs (Decidable (c.probes = false))
  | .write _ _ => inferInstanceAs (Decidable False)
  | .step _ _ => inferInstanceAs (Decidable True)

/-- What the log shows of a call, by where it is. -/
inductive CallLog (equals : T → T → Bool) (i : OpId) : Pc T → List (Event T) → Prop
  | idle : CallLog equals i .idle []
  | acquire (c : Method T) : c.probes = false → CallLog equals i (.acquire c) []
  | section (c : Method T) : c.probes = false → CallLog equals i (.section c) [.acquired i]
  | store (c : Method T) (oldValue value : T) : c.argument = some value → equals oldValue value = false →
      CallLog equals i (.store c oldValue value) [.acquired i, .compared i oldValue value false]
  | unlockPassed (c : Method T) (v : T) : c.probes = false → c.argument = none →
      CallLog equals i (.unlock c (c.outcome v) none) (.acquired i :: (bodyEvent equals v i c).toList)
  | unlockUnchanged (c : Method T) (oldValue value : T) : c.argument = some value → equals oldValue value = true →
      CallLog equals i (.unlock c (c.outcome oldValue) none) [.acquired i, .compared i oldValue value true]
  | unlockChanged (c : Method T) (oldValue value : T) : c.argument = some value → equals oldValue value = false →
      CallLog equals i (.unlock c (c.outcome oldValue) (some (oldValue, value)))
        [.acquired i, .compared i oldValue value false, .changed i oldValue value]
  | onChange (c : Method T) (oldValue value : T) : c.argument = some value → equals oldValue value = false →
      CallLog equals i (.onChange c (c.outcome oldValue) oldValue value)
        [.acquired i, .compared i oldValue value false, .changed i oldValue value, .unlocked i]
  | refused (c : Method T) : c.tries = true → CallLog equals i (.returned c c.refused) []
  | passed (c : Method T) (v : T) : c.probes = false → c.argument = none →
      CallLog equals i (.returned c (c.outcome v)) (.acquired i :: (bodyEvent equals v i c).toList ++ [.unlocked i])
  | unchanged (c : Method T) (oldValue value : T) : c.argument = some value → equals oldValue value = true →
      CallLog equals i (.returned c (c.outcome oldValue))
        [.acquired i, .compared i oldValue value true, .unlocked i]
  | changed (c : Method T) (oldValue value : T) : c.argument = some value → equals oldValue value = false →
      CallLog equals i (.returned c (c.outcome oldValue))
        [.acquired i, .compared i oldValue value false, .changed i oldValue value, .unlocked i,
          .delivered i oldValue value]

/-- The history of a value that was constructed as `initial`. -/
structure History (equals : T → T → Bool) (initial : T) (x : Machine T × List (Event T)) : Prop where
  /-- The stores lead from the initial to the current value. -/
  chain : Chained equals initial (changes x.2) x.1.value
  /-- They are in the order in which their calls took the lock. -/
  acquisition : ∀ l₁ i oldValue value l₂, x.2 = l₁ ++ .changed i oldValue value :: l₂ →
    ∃ a b, l₁ = a ++ .acquired i :: b ∧ (∀ j, .acquired j ∉ b) ∧ ∀ e ∈ b, e.change = none
  /-- Reads and comparisons see the value that the stores before them made. -/
  reads : ∀ l₁ i v l₂, x.2 = l₁ ++ .read i v :: l₂ → Chained equals initial (changes l₁) v
  comparisons : ∀ l₁ i oldValue value equal l₂, x.2 = l₁ ++ .compared i oldValue value equal :: l₂ →
    Chained equals initial (changes l₁) oldValue ∧ equal = equals oldValue value
  /-- Each call shows its own comparison, store and notification, once and in
  this order. -/
  calls : ∀ i, CallLog equals i (x.1.ops i) (trace i x.2)

section
variable {k : Wrapper} {equals : T → T → Bool} {initial : T} {m m' : Machine T} {l : List (Event T)} {a : Action T}
  {i : OpId}

/-! ## One call -/

/-- A step of `i` adds to the log of `i` only. -/
theorem calls_goto (h : ∀ j, CallLog equals j (m.ops j) (trace j l)) {pc : Pc T} (hops : m'.ops = m.ops)
    {e : Option (Event T)} (he : ∀ x, e = some x → x.op = i) (hi : CallLog equals i pc (trace i l ++ e.toList)) :
    ∀ j, CallLog equals j ((m'.goto i pc).ops j) (trace j (l ++ e.toList)) := by
  intro j
  rw [Machine.goto_ops, hops, trace_append]
  have hown : trace j e.toList = if j = i then e.toList else [] := by
    cases e with
    | none => simp [trace]
    | some x =>
      obtain rfl := he x rfl
      by_cases hj : j = x.op
      · simp [trace, hj]
      · simp [trace, hj, Ne.symm hj]
  rw [hown]
  by_cases hj : j = i
  · subst hj
    simpa using hi
  · simpa [hj] using h j

theorem bodyEvent_op {v : T} {c : Method T} : ∀ x, bodyEvent equals v i c = some x → x.op = i := by
  intro x hx
  cases c <;> cases hx <;> rfl

theorem calls_step (h : ∀ j, CallLog equals j (m.ops j) (trace j l)) (hp : Plain (m, l) a)
    (hs : step k equals true m a = some m') :
    ∀ j, CallLog equals j (m'.ops j) (trace j (l ++ (event k equals m a).toList)) := by
  have hm := step_moved hs
  generalize event k equals m a = e at hm
  cases hm with
  | call i c hpc =>
    have hi := h i
    rw [hpc] at hi
    refine calls_goto h (by rfl) nofun ?_
    generalize trace i l = t at hi
    cases hi
    exact .acquire c hp
  | refused i ok c hpc ht =>
    have hi := h i
    rw [hpc] at hi
    refine calls_goto h (by rfl) nofun ?_
    generalize trace i l = t at hi
    cases hi
    exact .refused c ht
  | acquired i ok c lock hpc =>
    have hi := h i
    rw [hpc] at hi
    refine calls_goto h (by rfl) (by rintro _ ⟨⟩; rfl) ?_
    generalize trace i l = t at hi
    cases hi with
    | acquire _ hc => exact .section c hc
  | compared i ok c value hpc harg =>
    have hi := h i
    rw [hpc] at hi
    refine calls_goto h (by rfl) (by rintro _ ⟨⟩; rfl) ?_
    generalize trace i l = t at hi
    cases hi
    split
    · rename_i heq
      rw [heq]
      exact .unlockUnchanged c _ value harg heq
    · rename_i hne
      have hne := Bool.eq_false_iff.2 hne
      rw [hne]
      exact .store c _ value harg hne
  | passed i ok c hpc harg =>
    have hi := h i
    rw [hpc] at hi
    refine calls_goto h (by rfl) bodyEvent_op ?_
    generalize trace i l = t at hi
    cases hi with
    | «section» _ hc => exact .unlockPassed c _ hc harg
  | stored i ok c oldValue value hpc =>
    have hi := h i
    rw [hpc] at hi
    refine calls_goto h (by rfl) (by rintro _ ⟨⟩; rfl) ?_
    generalize trace i l = t at hi
    cases hi with
    | store _ _ _ harg hne => exact .unlockChanged c oldValue value harg hne
  | unlocked i ok c o change hpc =>
    have hi := h i
    rw [hpc] at hi
    have hprobes : c.probes = false := by
      generalize trace i l = t at hi
      cases hi with
      | unlockPassed _ _ hc => exact hc
      | unlockUnchanged _ _ _ harg | unlockChanged _ _ _ harg => cases c <;> first | rfl | cases harg
    refine calls_goto h (by rfl) ?_ ?_
    · rintro x hx
      simp only [hprobes, Bool.false_eq_true, if_false, Option.some.injEq] at hx
      rw [← hx]
      rfl
    · simp only [hprobes, Bool.false_eq_true, if_false]
      generalize trace i l = t at hi
      cases hi with
      | unlockPassed _ v hc harg => exact .passed c v hc harg
      | unlockUnchanged _ oldValue value harg heq => exact .unchanged c oldValue value harg heq
      | unlockChanged _ oldValue value harg hne => exact .onChange c oldValue value harg hne
  | delivered i ok c o oldValue value hpc =>
    have hi := h i
    rw [hpc] at hi
    refine calls_goto h (by rfl) (by rintro _ ⟨⟩; rfl) ?_
    generalize trace i l = t at hi
    cases hi with
    | onChange _ _ _ harg hne => exact .changed c oldValue value harg hne
  | released i ok c hpc =>
    have hi := h i
    rw [hpc] at hi
    generalize trace i l = t at hi
    cases hi
  | written => cases hp

/-! ## All calls -/

/-- No probe is ever made. -/
theorem noProbe_of_calls (h : ∀ j, CallLog equals j (m.ops j) (trace j l)) : NoProbe l := by
  intro i hi
  have hmem : .probed i ∈ trace i l := List.mem_filter.2 ⟨hi, by simp [Event.op]⟩
  have hlog := h i
  generalize m.ops i = pc at hlog
  generalize trace i l = t at hlog hmem
  cases hlog with
  | unlockPassed c _ _ harg => cases c <;> simp [bodyEvent] at hmem
  | passed c _ _ harg => cases c <;> simp [bodyEvent] at hmem
  | _ => simp at hmem

/-- The value is the end of the chain, and a call that is about to store found it
there. -/
structure Values (equals : T → T → Bool) (initial : T) (x : Machine T × List (Event T)) : Prop where
  chain : Chained equals initial (changes x.2) x.1.value
  stored : ∀ i c oldValue value, x.1.ops i = .store c oldValue value →
    x.1.value = oldValue ∧ c.argument = some value ∧ equals oldValue value = false
  reads : ∀ l₁ i v l₂, x.2 = l₁ ++ .read i v :: l₂ → Chained equals initial (changes l₁) v
  comparisons : ∀ l₁ i oldValue value equal l₂, x.2 = l₁ ++ .compared i oldValue value equal :: l₂ →
    Chained equals initial (changes l₁) oldValue ∧ equal = equals oldValue value

/-- A step that does not store. -/
theorem Values.extend (h : Values equals initial (m, l)) {e : Option (Event T)} (hv : m'.value = m.value)
    (hst : ∀ i c oldValue value, m'.ops i = .store c oldValue value →
      m.value = oldValue ∧ c.argument = some value ∧ equals oldValue value = false)
    (hchange : ∀ x, e = some x → x.change = none) (hread : ∀ i v, e = some (.read i v) → v = m.value)
    (hcmp : ∀ i o v b, e = some (.compared i o v b) → o = m.value ∧ b = equals o v) :
    Values equals initial (m', l ++ e.toList) := by
  have hnone : changes e.toList = [] := by
    cases e with
    | none => rfl
    | some x => simp [changes, hchange x rfl]
  refine ⟨?_, ?_, ?_, ?_⟩
  · simpa [hnone, hv] using h.chain
  · simpa [hv] using hst
  · intro l₁ i v l₂ hl
    rcases System.split_append hl with ⟨l₃, hl, -⟩ | ⟨he, rfl, -⟩
    · exact h.reads l₁ i v l₃ hl
    · rw [hread i v he]
      exact h.chain
  · intro l₁ i oldValue value equal l₂ hl
    rcases System.split_append hl with ⟨l₃, hl, -⟩ | ⟨he, rfl, -⟩
    · exact h.comparisons l₁ i oldValue value equal l₃ hl
    · obtain ⟨ho, hb⟩ := hcmp i _ _ _ he
      refine ⟨?_, hb⟩
      rw [ho]
      exact h.chain

/-- A step that does not store, of a call that is not about to. -/
theorem Values.goto (h : Values equals initial (m, l)) (i : OpId) {pc : Pc T} {e : Option (Event T)}
    (hv : m'.value = m.value) (hops : m'.ops = m.ops) (hpc : ∀ c o v, pc ≠ .store c o v)
    (hchange : ∀ x, e = some x → x.change = none) (hread : ∀ i v, e = some (.read i v) → v = m.value)
    (hcmp : ∀ i o v b, e ≠ some (.compared i o v b)) : Values equals initial (m'.goto i pc, l ++ e.toList) := by
  refine h.extend (by exact hv) ?_ hchange hread fun i o v b he => absurd he (hcmp i o v b)
  intro j c o v hj
  rw [Machine.goto_ops, hops] at hj
  split at hj
  · exact absurd hj (hpc c o v)
  · exact h.stored j c o v hj

theorem Method.writes_of_argument {c : Method T} {v : T} (h : c.argument = some v) : c.writes = true := by
  cases c <;> first | rfl | cases h

/-- Two calls that have the lock, of which one stores, are one call. -/
theorem eq_of_locked (hx : Exclusion m) {j : OpId} {c d : Method T} {v : T} (hi : (m.ops i).inSection = some c)
    (hj : (m.ops j).inSection = some d) (hc : c.argument = some v) : j = i := by
  by_contra hne
  have hw := hx i j c d (Ne.symm hne) hi hj
  rw [Method.writes_of_argument hc] at hw
  cases hw

theorem Values.step (h : Values equals initial (m, l)) (hx : Exclusion m) (hp : Plain (m, l) a)
    (hs : step k equals true m a = some m') : Values equals initial (m', l ++ (event k equals m a).toList) := by
  have hm := step_moved hs
  generalize event k equals m a = e at hm
  cases hm with
  | call i c hpc => exact h.goto i (by rfl) (by rfl) nofun nofun nofun nofun
  | refused i ok c hpc ht => exact h.goto i (by rfl) (by rfl) nofun nofun nofun nofun
  | acquired i ok c lock hpc hl =>
    refine h.goto i (by rfl) (by rfl) nofun ?_ nofun nofun
    rintro x ⟨⟩
    rfl
  | compared i ok c value hpc harg =>
    refine h.extend (by rfl) ?_ ?_ nofun ?_
    · intro j d o v hj
      rw [Machine.goto_ops] at hj
      split at hj
      · split at hj
        · cases hj
        · cases hj
          exact ⟨rfl, harg, Bool.eq_false_iff.2 ‹_›⟩
      · exact h.stored j d o v hj
    · rintro x ⟨⟩
      rfl
    · rintro j o v b ⟨⟩
      exact ⟨rfl, rfl⟩
  | passed i ok c hpc harg =>
    refine h.goto i (by rfl) (by rfl) nofun ?_ ?_ ?_
    · intro x hx
      cases c <;> cases hx <;> rfl
    · intro j v hx
      cases c <;> cases hx <;> rfl
    · intro j o v b hx
      cases c <;> cases hx
      · cases harg
      · cases harg
  | stored i ok c oldValue value hpc =>
    obtain ⟨hv, harg, hne⟩ := h.stored i c oldValue value hpc
    have hchain : Chained equals initial (changes l) oldValue := hv ▸ h.chain
    refine ⟨?_, ?_, ?_, ?_⟩
    · simpa [changes, Event.change] using hchain.append hne
    · -- Nobody else is about to store.
      intro j d o v hj
      simp only [Machine.goto_ops] at hj
      split at hj
      · cases hj
      · rename_i hji
        exact absurd (eq_of_locked (c := c) hx (by rw [hpc]; rfl) (by rw [hj]; rfl) harg) hji
    · intro l₁ j v l₂ hl
      rcases System.split_append hl with ⟨l₃, hl, -⟩ | ⟨he, -, -⟩
      · exact h.reads l₁ j v l₃ hl
      · cases he
    · intro l₁ j o v b l₂ hl
      rcases System.split_append hl with ⟨l₃, hl, -⟩ | ⟨he, -, -⟩
      · exact h.comparisons l₁ j o v b l₃ hl
      · cases he
  | unlocked i ok c o change hpc =>
    refine h.goto i (by rfl) (by rfl) ?_ ?_ ?_ ?_
    · intro d o' v
      cases change with
      | none => dsimp only; split <;> nofun
      | some => nofun
    · intro x hx
      split at hx <;> cases hx <;> rfl
    · intro j v hx
      split at hx <;> cases hx
    · intro j o v b hx
      split at hx <;> cases hx
  | delivered i ok c o oldValue value hpc =>
    refine h.goto i (by rfl) (by rfl) nofun ?_ nofun nofun
    rintro x ⟨⟩
    rfl
  | released i ok c hpc =>
    refine h.goto i (by rfl) (by rfl) nofun ?_ nofun nofun
    rintro x ⟨⟩
    rfl
  | written => cases hp

/-! ## The order of acquisition -/

/-- Since `i` took the lock nobody has taken it, and nobody has stored. -/
def Entered (i : OpId) (l : List (Event T)) : Prop :=
  ∃ a b, l = a ++ .acquired i :: b ∧ (∀ j, .acquired j ∉ b) ∧ ∀ e ∈ b, e.change = none

/-- The stores are in the order of acquisition, and so is the next one. -/
structure Acquisition (x : Machine T × List (Event T)) : Prop where
  changed : ∀ l₁ i oldValue value l₂, x.2 = l₁ ++ .changed i oldValue value :: l₂ → Entered i l₁
  entered : ∀ i c v, (x.1.ops i = .section c ∨ ∃ o w, x.1.ops i = .store c o w) → c.argument = some v → Entered i x.2

theorem Entered.append (h : Entered i l) {e : Option (Event T)} (ha : ∀ j, e ≠ some (.acquired j))
    (hc : ∀ x, e = some x → x.change = none) : Entered i (l ++ e.toList) := by
  obtain ⟨a, b, rfl, hno, hch⟩ := h
  refine ⟨a, b ++ e.toList, by simp, ?_, ?_⟩
  · intro j hj
    rcases List.mem_append.1 hj with hj | hj
    · exact hno j hj
    · exact ha j (Option.mem_toList.1 hj)
  · intro x hx
    rcases List.mem_append.1 hx with hx | hx
    · exact hch x hx
    · exact hc x (Option.mem_toList.1 hx)

/-- A step that neither takes the lock nor stores. -/
theorem Acquisition.frame (h : Acquisition (m, l)) {e : Option (Event T)} (ha : ∀ j, e ≠ some (.acquired j))
    (hc : ∀ x, e = some x → x.change = none)
    (hin : ∀ j c v, (m'.ops j = .section c ∨ ∃ o w, m'.ops j = .store c o w) → c.argument = some v →
      (m.ops j = .section c ∨ ∃ o w, m.ops j = .store c o w)) : Acquisition (m', l ++ e.toList) := by
  refine ⟨?_, ?_⟩
  · intro l₁ j o v l₂ hl
    rcases System.split_append hl with ⟨l₃, hl, -⟩ | ⟨he, -, -⟩
    · exact h.changed l₁ j o v l₃ hl
    · exact absurd (hc _ he) nofun
  · intro j c v hj hv
    exact (h.entered j c v (hin j c v hj hv) hv).append ha hc

/-- A step of a call that is not, or no longer, before its store. -/
theorem Acquisition.goto (h : Acquisition (m, l)) (i : OpId) {pc : Pc T} {e : Option (Event T)}
    (hops : m'.ops = m.ops) (hsection : ∀ c, pc ≠ .section c) (hstore : ∀ c o v, pc ≠ .store c o v)
    (ha : ∀ j, e ≠ some (.acquired j)) (hc : ∀ x, e = some x → x.change = none) :
    Acquisition (m'.goto i pc, l ++ e.toList) := by
  refine h.frame ha hc ?_
  intro j c v hj _
  simp only [Machine.goto_ops, hops] at hj
  split at hj
  · rcases hj with hj | ⟨o, w, hj⟩
    · exact absurd hj (hsection c)
    · exact absurd hj (hstore c o w)
  · exact hj

theorem Acquisition.step (h : Acquisition (m, l)) (hl : Locking k (m, l)) (hn : NoProbe l) (hp : Plain (m, l) a)
    (hv : Values equals initial (m, l)) (hs : step k equals true m a = some m') :
    Acquisition (m', l ++ (event k equals m a).toList) := by
  have hx := hl.exclusion hn
  have hm := step_moved hs
  generalize event k equals m a = e at hm
  cases hm with
  | call i c hpc => exact h.goto i (by rfl) nofun nofun nofun nofun
  | refused i ok c hpc ht => exact h.goto i (by rfl) nofun nofun nofun nofun
  | acquired i ok c lock hpc hlock =>
    refine ⟨?_, ?_⟩
    · intro l₁ j o v l₂ hs
      rcases System.split_append hs with ⟨l₃, hs, -⟩ | ⟨he, -, -⟩
      · exact h.changed l₁ j o v l₃ hs
      · cases he
    · -- A call before its store holds the lock, so `i` could not have taken it.
      intro j d v hj harg
      simp only [Machine.goto_ops] at hj
      split at hj
      · rename_i hji
        subst hji
        exact ⟨l, [], rfl, nofun, nofun⟩
      · have hlocked : (m.ops j).locked = some d := by
          rcases hj with hj | ⟨o, w, hj⟩ <;> rw [hj] <;> rfl
        have hholds := hl.holds hn j d hlocked
        rw [Method.writes_exclusive k (Method.writes_of_argument harg)] at hholds
        have hnone : m.lock.acquire i (c.mode k) = none := State.acquire_eq_none hholds
        rw [hlock] at hnone
        cases hnone
  | compared i ok c value hpc harg =>
    refine h.frame nofun (by rintro x ⟨⟩; rfl) ?_
    intro j d v hj _
    rw [Machine.goto_ops] at hj
    split at hj
    · rename_i hji
      subst hji
      split at hj
      · simp at hj
      · obtain ⟨o, w, hj⟩ : ∃ o w, Pc.store c m.value value = .store d o w := by simpa using hj
        cases hj
        exact .inl hpc
    · exact hj
  | passed i ok c hpc harg =>
    refine h.goto i (by rfl) nofun nofun ?_ ?_
    · intro j he
      cases c <;> cases he
    · intro x hx
      cases c <;> cases hx <;> rfl
  | stored i ok c oldValue value hpc =>
    obtain ⟨-, harg, -⟩ := hv.stored i c oldValue value hpc
    refine ⟨?_, ?_⟩
    · intro l₁ j o v l₂ hs
      rcases System.split_append hs with ⟨l₃, hs, -⟩ | ⟨he, rfl, -⟩
      · exact h.changed l₁ j o v l₃ hs
      · cases he
        exact h.entered i c value (.inr ⟨_, _, hpc⟩) harg
    · intro j d v hj hd
      simp only [Machine.goto_ops] at hj
      split at hj
      · simp at hj
      · rename_i hji
        have hlocked : (m.ops j).inSection = some d := by
          rcases hj with hj | ⟨o, w, hj⟩ <;> rw [hj] <;> rfl
        exact absurd (eq_of_locked (c := c) hx (by rw [hpc]; rfl) hlocked harg) hji
  | unlocked i ok c o change hpc =>
    refine h.goto i (by rfl) ?_ ?_ ?_ ?_
    · intro d
      cases change with
      | none => dsimp only; split <;> nofun
      | some => nofun
    · intro d o' v
      cases change with
      | none => dsimp only; split <;> nofun
      | some => nofun
    · intro j he
      split at he <;> cases he
    · intro x hx
      split at hx <;> cases hx <;> rfl
  | delivered i ok c o oldValue value hpc => exact h.goto i (by rfl) nofun nofun nofun (by rintro x ⟨⟩; rfl)
  | released i ok c hpc => exact h.goto i (by rfl) nofun nofun nofun (by rintro x ⟨⟩; rfl)
  | written => cases hp

theorem history_reachable {x : Machine T × List (Event T)}
    (h : (system k equals true initial).ReachableWhen Plain x) : History equals initial x := by
  have hinv : (∀ j, CallLog equals j (x.1.ops j) (trace j x.2)) ∧ Values equals initial x ∧ Acquisition x := by
    refine h.invariant_with (J := Locking k)
      (I := fun x => (∀ j, CallLog equals j (x.1.ops j) (trace j x.2)) ∧ Values equals initial x ∧ Acquisition x)
      (fun x hr => locking_reachable hr) (fun x hx => ?_) fun x a y hl _ hi hp hs => ?_
    · obtain ⟨hm, hl⟩ := hx
      obtain ⟨m, l⟩ := x
      cases hm
      cases hl
      refine ⟨fun j => .idle, ⟨rfl, nofun, ?_, ?_⟩, ⟨?_, ?_⟩⟩
      · intro l₁ i v l₂ hl
        simp at hl
      · intro l₁ i o v b l₂ hl
        simp at hl
      · intro l₁ i o v l₂ hl
        simp at hl
      · intro i c v hi
        rcases hi with hi | ⟨o, w, hi⟩ <;> cases hi
    · obtain ⟨m, l⟩ := x
      obtain ⟨m', l'⟩ := y
      obtain ⟨hst, he⟩ := System.logged_step.1 hs
      cases he
      obtain ⟨hcalls, hvalues, hacq⟩ := hi
      have hn := noProbe_of_calls hcalls
      exact ⟨calls_step hcalls hp hst, hvalues.step (hl.exclusion hn) hp hst, hacq.step hl hn hp hvalues hst⟩
  obtain ⟨hcalls, hvalues, hacq⟩ := hinv
  exact ⟨hvalues.chain, hacq.changed, hvalues.reads, hvalues.comparisons, hcalls⟩

/-! ## The chains of the two wrappers -/

/-- Nobody holds the lock, and the operations from `n` on were never called. -/
structure Quiet (n : Nat) (m : Machine T) : Prop where
  free : m.lock = .free
  idle : ∀ i : Nat, n ≤ i → m.ops i = .idle

/-- Operation `n` sets the value. -/
theorem set_leads (k : Wrapper) (initial : T) (l : List (Event T)) {n : Nat} {v : T} (h : Quiet n m) (hne : equals m.value v = false) :
    ∃ m' l', (system k equals true initial).Leads Plain (m, l) (m', l') ∧ changes l' = changes l ++ [(m.value, v)] ∧
      m'.value = v ∧ Quiet (n + 1) m' := by
  have hrun : ((system k equals true initial).replayWhen Plain (m, l)
      (.call n (.set v) :: List.replicate 5 (.step n true))) =
      some (⟨v, .free, Function.update m.ops n (.returned (.set v) .done)⟩,
        l ++ [.acquired n, .compared n m.value v false, .changed n m.value v, .unlocked n,
          .delivered n m.value v]) := by
    obtain ⟨value, lock, ops⟩ := m
    obtain rfl : lock = .free := h.free
    have hidle : ops n = .idle := h.idle n (Nat.le_refl n)
    have hne : equals value v = false := hne
    simp [System.replayWhen, List.replicate, Plain, Method.probes, system, System.logged, step, stepOp, event, hidle,
      Machine.goto, Method.mode, Method.tries, State.acquire, State.free, body, bodyEvent, Method.argument, hne,
      Method.outcome, State.release, Wrapper.readMode]
  refine ⟨_, _, System.leads_of_replayWhen hrun, ?_, rfl, rfl, ?_⟩
  · rw [changes_append]
    rfl
  · intro i hi
    have hne : i ≠ n := by omega
    simpa [Function.update_of_ne hne] using h.idle i (by omega)

/-- Every chain is admitted. -/
theorem chain_leads (k : Wrapper) (initial : T) (l : List (Event T)) {n : Nat} {ps : List (T × T)} {b : T}
    (h : Quiet n m) (hps : Chained equals m.value ps b) :
    ∃ m' l', (system k equals true initial).Leads Plain (m, l) (m', l') ∧ changes l' = changes l ++ ps := by
  induction ps generalizing n m l with
  | nil => exact ⟨m, l, .refl _, by simp⟩
  | cons p ps ih =>
    obtain ⟨o, v⟩ := p
    obtain ⟨rfl, hne, hrest⟩ := hps
    obtain ⟨m₁, l₁, hlead, hch, hv, hq⟩ := set_leads k initial l h hne
    rw [← hv] at hrest
    obtain ⟨m₂, l₂, hlead₂, hch₂⟩ := ih l₁ hq hrest
    exact ⟨m₂, l₂, hlead.trans hlead₂, by rw [hch₂, hch, List.append_assoc]; rfl⟩

/-- A run of the wrapper has made these changes. -/
def Admits (k : Wrapper) (equals : T → T → Bool) (initial : T) (ps : List (T × T)) : Prop :=
  ∃ x, (system k equals true initial).ReachableWhen Plain x ∧ changes x.2 = ps

theorem admits_iff {ps : List (T × T)} : Admits k equals initial ps ↔ ∃ b, Chained equals initial ps b := by
  constructor
  · rintro ⟨x, hx, rfl⟩
    exact ⟨_, (history_reachable hx).chain⟩
  · rintro ⟨b, hps⟩
    have hquiet : Quiet 0 (Machine.start initial) := ⟨rfl, fun _ _ => rfl⟩
    obtain ⟨m, l, hlead, hch⟩ := chain_leads k initial [] hquiet hps
    exact ⟨(m, l), System.ReachableWhen.leads (.init ⟨rfl, rfl⟩) hlead, by simpa [changes] using hch⟩

end

/-- Change notifications are the history of the value, and the two wrappers
admit the same histories. -/
theorem change_notifications (equals : T → T → Bool) (initial : T) :
    (∀ k x, (system k equals true initial).ReachableWhen Plain x → History equals initial x) ∧
      ∀ ps, Admits .mutex equals initial ps ↔ Admits .readWriteMutex equals initial ps :=
  ⟨fun _ _ h => history_reachable h, fun _ => admits_iff.trans admits_iff.symm⟩

/-- Operation 1 sets the value while operation 0 has not yet delivered. -/
def crossedSets : List (Action Nat) :=
  [.call 0 (.set 5), .step 0 true, .step 0 true, .step 0 true, .step 0 true, .call 1 (.set 7), .step 1 true,
    .step 1 true, .step 1 true, .step 1 true, .step 1 true, .step 0 true]

/-- Notifications that are delivered in the other order still form the chain. -/
theorem crossed_history : ∃ x : Machine Nat × List (Event Nat), History (· == ·) 3 x ∧
    changes x.2 = [(3, 5), (5, 7)] ∧ x.1.value = 7 := by
  have hrun : ((system .mutex (· == ·) true 3).replayWhen Plain (.start 3, []) crossedSets).map
      (fun x => (changes x.2, x.1.value)) = some ([(3, 5), (5, 7)], 7) := by
    decide
  obtain ⟨x, hs, hp⟩ := Option.map_eq_some_iff.1 hrun
  simp only [Prod.mk.injEq] at hp
  have hr := System.reachableWhen_of_replayWhen (S := system .mutex (· == ·) true 3) ⟨rfl, rfl⟩ hs
  exact ⟨x, (change_notifications (· == ·) 3).1 .mutex x hr, hp⟩

end ESPressio.ThreadSafe
