import ESPressioThreads.Lib.Linearizability
import ESPressioThreads.ThreadSafe.History
/-!
# The values are atomic

`Get`, `Set`, their `Try` forms and the `With` sections of many callers overlap,
and `OnChange` runs after the lock was given up. As long as no probe takes the
lock the callers cannot tell: every history of calls and returns is one of a
plain variable that is used by one caller after the other.

A call takes effect at its last step under the lock, a refused one at once. A
`With` callback writes through its reference before that, so the variable lags
behind the value while such a section is open.
-/

namespace ESPressio.ThreadSafe

open ReadWriteLock Transition Linearizability

variable {T : Type}

/-- What a call returns, and the pair that it gave to `OnChange`. -/
abbrev Response (T : Type) := Outcome T × Option (T × T)

/-- A variable that is compared before it is set. -/
inductive Variable (equals : T → T → Bool) (observed : Bool) : Spec T (Method T) (Response T)
  | refused (v : T) (c : Method T) : c.tries = true → Variable equals observed v c (c.refused, none) v
  | passed (v : T) (c : Method T) : c.argument = none → c.mutable = false →
      Variable equals observed v c (c.outcome v, none) v
  /-- The callback left another value. -/
  | updated (v v' : T) (c : Method T) : c.mutable = true → Variable equals observed v c (c.outcome v', none) v'
  | unchanged (v value : T) (c : Method T) : c.argument = some value → equals v value = true →
      Variable equals observed v c (c.outcome v, none) v
  | changed (v value : T) (c : Method T) : c.argument = some value → equals v value = false →
      Variable equals observed v c (c.outcome v, if observed then some (v, value) else none) value

/-- The calls, and what they return. -/
def visible (k : Wrapper) (m : Machine T) : Action T → Option (Visible OpId (Method T) (Response T))
  | .call i c => some (.call i c)
  | .step i ok =>
    match m.ops i with
    | .acquire c =>
      if c.tries && (!ok || (m.lock.acquire i (c.mode k)).isNone) then some (.ret i (c.refused, none)) else none
    | .unlock _ o none => some (.ret i (o, none))
    | .onChange _ o oldValue value => some (.ret i (o, some (oldValue, value)))
    | _ => none
  | .write _ _ => none

/-- Runs with the history that the callers see. -/
def observedSystem (k : Wrapper) (equals : T → T → Bool) (observed : Bool) (initial : T) :
    System ((Machine T × List (Event T)) × List (Visible OpId (Method T) (Response T))) (Action T) :=
  (system k equals observed initial).logged fun x => visible k x.1

/-- The state of a call of the variable, by where the call of the value is. -/
inductive Follows (equals : T → T → Bool) : Pc T → Status (Method T) (Response T) → Prop
  | idle : Follows equals .idle .idle
  | acquire (c : Method T) : Follows equals (.acquire c) (.pending c)
  | section (c : Method T) : Follows equals (.section c) (.pending c)
  | store (c : Method T) (oldValue value : T) : c.argument = some value → equals oldValue value = false →
      Follows equals (.store c oldValue value) (.pending c)
  | unlock (c : Method T) (o : Outcome T) (change : Option (T × T)) :
      Follows equals (.unlock c o change) (.committed c (o, change))
  | onChange (c : Method T) (o : Outcome T) (oldValue value : T) :
      Follows equals (.onChange c o oldValue value) (.committed c (o, some (oldValue, value)))
  | returned (c : Method T) (o : Outcome T) (change : Option (T × T)) :
      Follows equals (.returned c o) (.returned c (o, change))

/-- The method of a call that has not taken effect. -/
def Pc.open : Pc T → Option (Method T)
  | .acquire c | .section c | .store c _ _ => some c
  | .idle | .unlock _ _ _ | .onChange _ _ _ _ | .probed _ | .returned _ _ => none

/-- The variable `o` stands for the value `m`. -/
structure Stands (equals : T → T → Bool) (m : Machine T) (o : Object OpId T (Method T) (Response T)) : Prop where
  calls : ∀ i, Follows equals (m.ops i) (o.calls i)
  store : ∀ i c oldValue value, m.ops i = .store c oldValue value → o.value = oldValue
  /-- It lags behind while a callback may write. -/
  value : (∀ i c, m.ops i = .section c → c.mutable = false) → o.value = m.value

section
variable {k : Wrapper} {equals : T → T → Bool} {observed : Bool} {initial : T} {m m' : Machine T}
  {o o' : Object OpId T (Method T) (Response T)} {i : OpId} {c : Method T}

theorem Method.writes_of_mutable (h : c.mutable = true) : c.writes = true := by
  cases c <;> first | rfl | cases h

theorem goto_calls_self (o : Object OpId T (Method T) (Response T)) (i : OpId) : o.goto i (o.calls i) = o := by
  simp [Object.goto]

theorem Follows.pending {pc : Pc T} {s : Status (Method T) (Response T)} (h : Follows equals pc s)
    (hpc : pc.open = some c) : s = .pending c := by
  cases h <;> cases hpc <;> rfl

theorem Stands.pending (h : Stands equals m o) (hpc : (m.ops i).open = some c) : o.calls i = .pending c :=
  (h.calls i).pending hpc

/-! ## The step of one call -/

/-- The variable after a step of `i`, when it may have changed. -/
theorem Stands.move (h : Stands equals m o) {pc : Pc T} {s : Status (Method T) (Response T)} (hops : m'.ops = m.ops)
    (hcalls : o'.calls = o.calls) (hf : Follows equals pc s)
    (hstore : ∀ c oldValue value, pc = .store c oldValue value → o'.value = oldValue)
    (hothers : ∀ j, j ≠ i → ∀ c oldValue value, m.ops j = .store c oldValue value → o'.value = o.value)
    (hvalue : (∀ c, pc = .section c → c.mutable = false) →
      (∀ j, j ≠ i → ∀ c, m.ops j = .section c → c.mutable = false) → o'.value = m'.value) :
    Stands equals (m'.goto i pc) (o'.goto i s) := by
  refine ⟨?_, ?_, ?_⟩
  · intro j
    rw [Machine.goto_ops, Object.goto_calls, hops, hcalls]
    split
    · exact hf
    · exact h.calls j
  · intro j c oldValue value hj
    rw [Machine.goto_ops, hops] at hj
    split at hj
    · exact hstore c oldValue value hj
    · rename_i hne
      exact (hothers j hne c oldValue value hj).trans (h.store j c oldValue value hj)
  · intro hsec
    refine hvalue (fun c hc => hsec i c ?_) fun j hne c hc => hsec j c ?_
    · rw [Machine.goto_ops, if_pos rfl, hc]
    · rw [Machine.goto_ops, if_neg hne, hops, hc]

/-- A step of `i` that leaves the variable as it is. -/
theorem Stands.keep (h : Stands equals m o) {pc : Pc T} {s : Status (Method T) (Response T)} (hops : m'.ops = m.ops)
    (hcalls : o'.calls = o.calls) (hv : m'.value = m.value) (ho : o'.value = o.value) (hf : Follows equals pc s)
    (hstore : ∀ c oldValue value, pc = .store c oldValue value → o.value = oldValue)
    (hleft : ∀ c, m.ops i = .section c → c.mutable = false) : Stands equals (m'.goto i pc) (o'.goto i s) := by
  refine h.move hops hcalls hf ?_ ?_ ?_
  · intro c oldValue value hpc
    exact ho.trans (hstore c oldValue value hpc)
  · intro _ _ _ _ _ _
    exact ho
  · intro _ hsec
    rw [ho, hv]
    refine h.value fun j c hj => ?_
    by_cases hne : j = i
    · subst hne
      exact hleft c hj
    · exact hsec j hne c hj

/-- A step of `i` that the variable does not see. -/
theorem Stands.stay (h : Stands equals m o) {pc : Pc T} (hops : m'.ops = m.ops) (hv : m'.value = m.value)
    (hf : Follows equals pc (o.calls i)) (hstore : ∀ c oldValue value, pc = .store c oldValue value → o.value = oldValue)
    (hleft : ∀ c, m.ops i = .section c → c.mutable = false) : Stands equals (m'.goto i pc) o := by
  have hkeep : Stands equals (m'.goto i pc) (o.goto i (o.calls i)) := h.keep hops rfl hv rfl hf hstore hleft
  rwa [goto_calls_self] at hkeep

/-- Whoever may write is alone in its section. -/
theorem alone (hx : Exclusion m) {d : Method T} {j : OpId} (hi : (m.ops i).inSection = some c)
    (hw : c.writes = true) (hj : (m.ops j).inSection = some d) : j = i := by
  by_contra hne
  have := hx i j c d (Ne.symm hne) hi hj
  rw [hw] at this
  cases this

/-- Nobody writes while a call is in a section that only reads, and the value is
that of the variable. -/
theorem Stands.value_of_section (h : Stands equals m o) (hx : Exclusion m) (hpc : m.ops i = .section c)
    (hm : c.mutable = false) : o.value = m.value := by
  refine h.value fun j d hj => ?_
  by_contra hd
  have hw : d.writes = true := Method.writes_of_mutable (by simpa using hd)
  have hij : i = j := alone hx (by rw [hj]; rfl) hw (by rw [hpc]; rfl)
  subst hij
  rw [hpc] at hj
  cases hj
  exact hd hm

/-! ## The simulation -/

theorem visible_acquired {ok : Bool} {lock : State OpId} (hpc : m.ops i = .acquire c)
    (hl : m.lock.acquire i (c.mode k) = some lock) (hok : c.tries = true → ok = true) :
    visible k m (.step i ok) = none := by
  simp only [visible, hpc, hl]
  cases ht : c.tries with
  | false => rfl
  | true => simp [hok ht]

theorem visible_refused {ok : Bool} (hpc : m.ops i = .acquire c) (ht : c.tries = true)
    (hs : step k equals observed m (.step i ok) = some (m.goto i (.returned c c.refused))) :
    visible k m (.step i ok) = some (.ret i (c.refused, none)) := by
  simp only [visible, hpc, ht, Bool.true_and]
  cases ok with
  | false => rfl
  | true =>
    cases hl : m.lock.acquire i (c.mode k) with
    | none => rfl
    | some lock =>
      simp only [step, stepOp, hpc, hl, Bool.not_true, Bool.and_false, Bool.false_eq_true, if_false,
        Option.some.injEq] at hs
      have hi := congrArg (fun m => m.ops i) hs
      simp [Machine.goto_ops] at hi

theorem Stands.step {a : Action T} (h : Stands equals m o) (hx : Exclusion m)
    (hs : step k equals observed m a = some m') (hn : ∀ i, event k equals m a ≠ some (.probed i)) :
    ∃ o', (atomic OpId (Variable equals observed) initial).Shows shown o (visible k m a).toList o' ∧
      Stands equals m' o' := by
  have hm := step_moved hs
  generalize event k equals m a = e at hm hn
  cases hm with
  | call i c hpc =>
    have hidle : o.calls i = .idle := by
      have hf := h.calls i
      rw [hpc] at hf
      generalize o.calls i = s at hf
      cases hf
      rfl
    refine ⟨_, shows_call hidle, h.keep rfl rfl rfl rfl (.acquire c) ?_ ?_⟩
    · rintro _ _ _ ⟨⟩
    · rw [hpc]
      rintro _ ⟨⟩
  | refused i ok c hpc ht =>
    have hpend : o.calls i = .pending c := h.pending (by rw [hpc]; rfl)
    rw [visible_refused hpc ht hs]
    refine ⟨_, shows_commit_ret hpend (.refused o.value c ht), h.keep rfl rfl rfl rfl (.returned c _ _) ?_ ?_⟩
    · rintro _ _ _ ⟨⟩
    · rw [hpc]
      rintro _ ⟨⟩
  | acquired i ok c lock hpc hl hok =>
    have hpend : o.calls i = .pending c := h.pending (by rw [hpc]; rfl)
    rw [visible_acquired hpc hl hok]
    refine ⟨o, .stay o, h.stay rfl rfl (by rw [hpend]; exact .section c) ?_ ?_⟩
    · rintro _ _ _ ⟨⟩
    · rw [hpc]
      rintro _ ⟨⟩
  | compared i ok c value hpc harg =>
    have hpend : o.calls i = .pending c := h.pending (by rw [hpc]; rfl)
    have hm : c.mutable = false := by cases c <;> first | rfl | cases harg
    have hv : o.value = m.value := h.value_of_section hx hpc hm
    have hleft : ∀ d, m.ops i = .section d → d.mutable = false := by
      intro d hd
      rw [hpc] at hd
      cases hd
      exact hm
    have hvis : visible k m (.step i ok) = none := by simp only [visible, hpc]
    rw [hvis]
    cases heq : equals m.value value with
    | true =>
      have hspec : Variable equals observed o.value c (c.outcome m.value, none) o.value := by
        rw [hv]
        exact .unchanged m.value value c harg heq
      refine ⟨_, shows_commit hpend hspec, h.keep rfl rfl rfl rfl (.unlock ..) ?_ hleft⟩
      rintro _ _ _ ⟨⟩
    | false =>
      refine ⟨o, .stay o, h.stay rfl rfl ?_ ?_ hleft⟩
      · rw [hpend]
        exact .store c m.value value harg heq
      · rintro _ _ _ ⟨⟩
        exact hv
  | passed i ok c hpc harg =>
    have hpend : o.calls i = .pending c := h.pending (by rw [hpc]; rfl)
    have hvis : visible k m (.step i ok) = none := by simp only [visible, hpc]
    rw [hvis]
    cases hm : c.mutable with
    | true =>
      refine ⟨_, shows_commit hpend (.updated o.value m.value c hm),
        h.move rfl rfl (.unlock ..) ?_ ?_ ?_⟩
      · rintro _ _ _ ⟨⟩
      · intro j hne d oldValue value hj
        have hi : (m.ops i).inSection = some c := by
          rw [hpc]
          rfl
        have hd : (m.ops j).inSection = some d := by
          rw [hj]
          rfl
        exact absurd (alone hx hi (Method.writes_of_mutable hm) hd) hne
      · intro _ _
        rfl
    | false =>
      have hv : o.value = m.value := h.value_of_section hx hpc hm
      have hspec : Variable equals observed o.value c (c.outcome m.value, none) o.value := by
        rw [hv]
        exact .passed m.value c harg hm
      refine ⟨_, shows_commit hpend hspec, h.keep rfl rfl rfl rfl (.unlock ..) ?_ ?_⟩
      · rintro _ _ _ ⟨⟩
      · rw [hpc]
        rintro _ ⟨⟩
        exact hm
  | stored i ok c oldValue value hpc =>
    have hpend : o.calls i = .pending c := h.pending (by rw [hpc]; rfl)
    have hvis : visible k m (.step i ok) = none := by simp only [visible, hpc]
    have hv : o.value = oldValue := h.store i c oldValue value hpc
    obtain ⟨harg, hne⟩ : c.argument = some value ∧ equals oldValue value = false := by
      have hf := h.calls i
      rw [hpc] at hf
      generalize o.calls i = s at hf
      cases hf
      exact ⟨‹_›, ‹_›⟩
    have hspec : Variable equals observed o.value c
        (c.outcome oldValue, if observed then some (oldValue, value) else none) value := by
      rw [hv]
      exact .changed oldValue value c harg hne
    rw [hvis]
    refine ⟨_, shows_commit hpend hspec, h.move rfl rfl (.unlock ..) ?_ ?_ ?_⟩
    · rintro _ _ _ ⟨⟩
    · intro j hji d old new hj
      have hi : (m.ops i).inSection = some c := by
        rw [hpc]
        rfl
      have hd : (m.ops j).inSection = some d := by
        rw [hj]
        rfl
      exact absurd (alone hx hi (Method.writes_of_argument harg) hd) hji
    · intro _ _
      rfl
  | unlocked i ok c r change hpc =>
    have hcom : o.calls i = .committed c (r, change) := by
      have hf := h.calls i
      rw [hpc] at hf
      generalize o.calls i = s at hf
      cases hf
      rfl
    have hp : c.probes = false := by
      refine Bool.eq_false_iff.2 fun hp => hn i ?_
      rw [if_pos hp]
    have hleft : ∀ d, m.ops i = .section d → d.mutable = false := by
      rw [hpc]
      rintro _ ⟨⟩
    cases change with
    | none =>
      have hvis : visible k m (.step i ok) = some (.ret i (r, none)) := by simp only [visible, hpc]
      rw [hvis]
      refine ⟨_, shows_ret hcom, h.keep rfl rfl rfl rfl ?_ ?_ hleft⟩
      · rw [hp]
        exact .returned c r none
      · rw [hp]
        rintro _ _ _ ⟨⟩
    | some p =>
      have hvis : visible k m (.step i ok) = none := by simp only [visible, hpc]
      rw [hvis]
      refine ⟨o, .stay o, h.stay rfl rfl ?_ ?_ hleft⟩
      · rw [hcom]
        exact .onChange c r p.1 p.2
      · rintro _ _ _ ⟨⟩
  | delivered i ok c r oldValue value hpc =>
    have hcom : o.calls i = .committed c (r, some (oldValue, value)) := by
      have hf := h.calls i
      rw [hpc] at hf
      generalize o.calls i = s at hf
      cases hf
      rfl
    have hvis : visible k m (.step i ok) = some (.ret i (r, some (oldValue, value))) := by simp only [visible, hpc]
    rw [hvis]
    refine ⟨_, shows_ret hcom, h.keep rfl rfl rfl rfl (.returned c r _) ?_ ?_⟩
    · rintro _ _ _ ⟨⟩
    · rw [hpc]
      rintro _ ⟨⟩
  | released i ok c hpc =>
    have hf := h.calls i
    rw [hpc] at hf
    generalize o.calls i = s at hf
    cases hf
  | written i v c hpc hm =>
    refine ⟨o, .stay o, h.calls, h.store, fun hsec => ?_⟩
    have := hsec i c hpc
    rw [hm] at this
    cases this

theorem simulation (k : Wrapper) (equals : T → T → Bool) (observed : Bool) (initial : T) :
    System.Simulation (system k equals observed initial) (fun x => visible k x.1)
      (fun x a => ∀ i, event k equals x.1 a ≠ some (.probed i)) (atomic OpId (Variable equals observed) initial) shown
      (fun x o => Locking k x ∧ NoProbe x.2 ∧ Stands equals x.1 o) := by
  refine ⟨?_, ?_⟩
  · intro x hx
    refine ⟨_, rfl, locking_reachable (.init hx : (system k equals observed initial).Reachable x), ?_, ?_⟩
    · rw [hx.2]
      rintro _ ⟨⟩
    · rw [hx.1]
      refine ⟨fun _ => .idle, ?_, fun _ => rfl⟩
      rintro _ _ _ _ ⟨⟩
  · rintro ⟨m, l⟩ o a ⟨m', l'⟩ ⟨hl, hn, hst⟩ hc hs
    obtain ⟨hstep, hlog⟩ := System.logged_step.1 hs
    obtain ⟨o', hshows, hst'⟩ : ∃ o', (atomic OpId (Variable equals observed) initial).Shows shown o
        (visible k m a).toList o' ∧ Stands equals m' o' := hst.step (hl.exclusion hn) hstep hc
    cases hlog
    refine ⟨o', hshows, hl.step hstep, ?_, hst'⟩
    intro i hi
    rcases System.mem_append hi with hi | hi
    · exact hn i hi
    · exact hc i hi

/-- No history shows that the calls overlap, unless a probe took the lock. -/
theorem history_linearizable (k : Wrapper) (equals : T → T → Bool) (observed : Bool) (initial : T)
    (x : (Machine T × List (Event T)) × List (Visible OpId (Method T) (Response T)))
    (h : (observedSystem k equals observed initial).Reachable x) (hn : NoProbe x.1.2) :
    Linearizable (Variable equals observed) initial x.2 := by
  have hwhen : (observedSystem k equals observed initial).ReachableWhen
      (fun x a => ∀ i, event k equals x.1.1 a ≠ some (.probed i)) x := by
    refine System.ReachableWhen.of_end h (P := fun x => NoProbe x.1.2) hn fun x a y hs hn => ?_
    obtain ⟨hlog, -⟩ := System.logged_step.1 hs
    obtain ⟨-, hl⟩ := System.logged_step.1 hlog
    rw [hl] at hn
    refine ⟨hn.of_append, fun i hi => hn i ?_⟩
    simp [hi]
  obtain ⟨o, ho, -⟩ := (simulation k equals observed initial).reachable hwhen
  exact atomic_linearizable ho

end

/-- A `Set` stores, a `Get` that was called before reads and returns the new
value, and only then is `OnChange` done. -/
def overtakenSet : List (Action Nat) :=
  [.call 0 (.set 5), .call 1 .get, .step 0 true, .step 0 true, .step 0 true, .step 0 true, .step 1 true, .step 1 true,
    .step 1 true, .step 0 true]

theorem overtakenSet_linearizable : ∃ h : List (Visible OpId (Method Nat) (Response Nat)),
    Linearizable (Variable (· == ·) true) 0 h ∧ h = [.call 0 (.set 5), .call 1 .get, .ret 1 (.value 5, none),
      .ret 0 (.done, some (0, 5))] := by
  have hlog : ((observedSystem .readWriteMutex (· == ·) true (0 : Nat)).replay ((.start 0, []), []) overtakenSet).map
      (fun x => x.1.2) = some [.acquired 0, .compared 0 0 5 false, .changed 0 0 5, .unlocked 0, .acquired 1, .read 1 5,
        .unlocked 1, .delivered 0 0 5] := by
    decide
  have hseen : ((observedSystem .readWriteMutex (· == ·) true (0 : Nat)).replay ((.start 0, []), []) overtakenSet).map
      (fun x => x.2) = some [.call 0 (.set 5), .call 1 .get, .ret 1 (.value 5, none), .ret 0 (.done, some (0, 5))] := by
    decide
  obtain ⟨x, hs, hl⟩ := Option.map_eq_some_iff.1 hlog
  rw [hs] at hseen
  have hr : (observedSystem .readWriteMutex (· == ·) true (0 : Nat)).Reachable x :=
    System.reachable_of_replay ⟨⟨rfl, rfl⟩, rfl⟩ hs
  refine ⟨x.2, history_linearizable .readWriteMutex (· == ·) true 0 x hr ?_, Option.some.inj hseen⟩
  simp [NoProbe, hl]

end ESPressio.ThreadSafe
