import Mathlib.Data.List.Nodup
import ESPressioThreads.Dispatch.Order
/-!
# What an observer receives

Every observer gets `OnThreadStateChanged` once for each transition. A nested
transition is delivered to the observers that the outer one has not reached
before the outer one is: their last delivery may be of a state that the thread
has left. An observer that no re-entry precedes gets the transitions in order.
-/

namespace ESPressio.Dispatch

open Transition Chain ESPressio.Thread
open ESPressio.Lifecycle (TaskId hasThreadEvent)

/-- The `(old, new)` pairs that an observer received, in order. -/
def delivered (o : Observer) (l : List Event) : List (ThreadState × ThreadState) := begun (.onThreadStateChanged o) l

/-- No call is in progress. -/
def Machine.Idle (m : Machine) : Prop := ∀ p, m.height p = 0

variable {h : Handlers} {m m' : Machine} {p q : TaskId} {n : Nat} {l : List Event} {a : Action}
  {x y : Machine × List Event} {c : Handler} {o : Observer}

theorem onThreadStateChanged_general (hn : h.observers.Nodup) (ho : o ∈ h.observers) :
    h.General (.onThreadStateChanged o) where
  general := rfl
  once newState := by
    have hobservers : ∀ os : List Observer,
        (os.flatMap fun o' => [Handler.onThreadStateChanged o', .onThreadState o']).count (.onThreadStateChanged o) =
          os.count o := by
      intro os
      induction os with
      | nil => rfl
      | cons o' os ih =>
        rw [List.flatMap_cons, List.count_append, ih, List.count_cons]
        by_cases he : o' = o
        · simp [he, Nat.add_comm]
        · simp [he]
    have hcallbacks : .onThreadStateChanged o ∉ (if h.onStateChange then [Handler.onStateChange] else []) ++
        (if hasThreadEvent newState && h.onThreadEvent newState then [.onThreadEvent] else []) := by
      intro hm
      rcases List.mem_append.1 hm with hm | hm <;> split at hm <;> simp at hm
    rw [Handlers.calls, List.count_append, List.count_eq_zero.2 hcallbacks, hobservers,
      List.count_eq_one_of_mem hn ho]

/-- A general handler is not passed over. -/
theorem count_starts (hl : ∀ n newState current, .superseded n c newState current ∉ l) :
    (starts c l).count n = (handled n l).count c := by
  induction l with
  | nil => rfl
  | cons e l ih =>
    have ih := ih fun n newState current hm => hl n newState current (List.mem_cons_of_mem _ hm)
    simp only [starts, handled] at ih ⊢
    cases e with
    | stored =>
      rw [List.filterMap_cons_none rfl, List.filterMap_cons_none rfl]
      exact ih
    | superseded number handler newState current =>
      have hne : handler ≠ c := fun he => hl number newState current (by rw [he]; exact List.mem_cons_self)
      rw [List.filterMap_cons_none rfl]
      by_cases hnum : number = n
      · rw [List.filterMap_cons_some (by simp [Event.handledBy, hnum]; rfl), List.count_cons_of_ne hne, ih]
      · rw [List.filterMap_cons_none (by simp [Event.handledBy, hnum]), ih]
    | started number handler oldState newState current =>
      by_cases hc : handler = c <;> by_cases hnum : number = n
      · simp [Event.startOf, Event.handledBy, hc, hnum, ih]
      · simp [Event.startOf, Event.handledBy, hc, hnum, ih]
      · simp [Event.startOf, Event.handledBy, hc, hnum, ih]
      · simp [Event.startOf, Event.handledBy, hc, hnum, ih]

theorem Kept.idle (hk : Kept h m l) (hi : m.Idle) (a : TaskId × Nat) : m.frames a = Frame.idle :=
  hk.stacked.above a.1 a.2 (by rw [hi a.1]; exact Nat.zero_le _)

/-- A thread in no call has called a general handler once for each transition. -/
theorem begun_perm (hk : Kept h m l) (hg : h.General c) (hi : m.Idle) : (begun c l).Perm (changes l) := by
  have hnone : ∀ n newState current, .superseded n c newState current ∉ l := by
    intro n newState current hm
    have := (hk.observed.superseded n c newState current hm).1
    rw [hg.general] at this
    cases this
  have hstarts : (starts c l).Perm (List.range (changes l).length) := by
    rw [List.perm_iff_count]
    intro n
    rw [count_starts hnone]
    by_cases hn : n < (changes l).length
    · have hdone : ¬ m.Delivers n := by
        rintro ⟨a, d, hd, -⟩
        rw [hk.idle hi a] at hd
        cases hd
      have hnth : (changes l)[n]? = some ((changes l)[n].1, (changes l)[n].2) := List.getElem?_eq_getElem hn
      rw [hk.numbered.finished n _ _ hnth hdone, hg.once,
        List.count_eq_one_of_mem List.nodup_range (List.mem_range.2 hn)]
    · rw [hk.numbered.unborn n (Nat.le_of_not_lt hn), List.count_nil,
        List.count_eq_zero.2 fun hm => hn (List.mem_range.1 hm)]
  have hpairs := begun_eq (c := c) fun n handler oldState newState current hm =>
    (hk.observed.started n handler oldState newState current hm).1
  rw [hpairs]
  refine (hstarts.filterMap _).trans ?_
  rw [filterMap_getElem?_range, List.take_length]

/-- Each observer receives every transition once. It receives them in order, the
current state last, in runs in which no handler before its
`OnThreadStateChanged` stores a transition. -/
theorem observer_deliveries (h : Handlers) (hn : h.observers.Nodup) (o : Observer) (ho : o ∈ h.observers)
    (x : Machine × List Event) :
    ((system h).Reachable x → x.1.Idle → (delivered o x.2).Perm (changes x.2)) ∧
      ((system h).ReachableWhen (fun x a => StoresAfter (.onThreadStateChanged o) x.1 a) x →
        delivered o x.2 <+: changes x.2 ∧ (x.1.Idle → delivered o x.2 = changes x.2 ∧
          ∀ oldState newState, (delivered o x.2).getLast? = some (oldState, newState) →
            newState = x.1.threadState)) := by
  have hg := onThreadStateChanged_general hn ho
  refine ⟨fun hx hi => begun_perm (kept_reachable hx) hg hi, fun hx => ?_⟩
  have hk := kept_reachable hx
  rcases (inOrder_reachable hg hx).begun hk with hall | ⟨last, a, hlast, hp⟩
  · refine ⟨⟨[], by rw [delivered, hall, List.append_nil]⟩, fun _ => ⟨hall, fun oldState newState hl => ?_⟩⟩
    rw [delivered, hall] at hl
    exact hk.observed.path.getLast hl
  · refine ⟨⟨[last], hlast.symm⟩, fun hi => ?_⟩
    rw [hk.idle hi a] at hp
    cases hp

/-! ## Re-entry before an observer -/

/-- The task of an action. -/
def Action.task : Action → Option TaskId
  | .call p _ _ | .step p _ => some p
  | .initializing _ _ => none

theorem step_height (hs : step h m a = some m') (hq : a.task ≠ some q) : m'.height q = m.height q := by
  have hne : ∀ p, a.task = some p → q ≠ p := by
    rintro p hp rfl
    exact hq hp
  have hm := step_moved hs
  generalize event m a = e at hm
  cases hm with
  | call p => rw [Machine.push_height, if_neg (hne p rfl)]
  | unlocked p => rw [Machine.pop_height, if_neg (hne p rfl)]
  | initializing | locked | stored | superseded | chosen | started | returned | ending => rfl

/-- A schedule of one task leaves the others out of calls. -/
theorem replay_height {as : List Action} (hs : (system h).replay x as = some y) (has : ∀ a ∈ as, a.task = some p)
    (hq : q ≠ p) : y.1.height q = x.1.height q := by
  induction as generalizing x with
  | nil => cases hs; rfl
  | cons a as ih =>
    obtain ⟨t, ht, hr⟩ := Option.bind_eq_some_iff.1 hs
    have hstep := step_height (q := q) (System.logged_step.1 ht).1 fun he => by
      have := has a List.mem_cons_self
      rw [he] at this
      exact hq (Option.some.inj this)
    rw [ih hr fun b hb => has b (List.mem_cons_of_mem _ hb), hstep]

theorem idle_of_replay {as : List Action} (hs : (system h).replay (.start, []) as = some x)
    (has : ∀ a ∈ as, a.task = some p) (hp : x.1.height p = 0) : x.1.Idle := by
  intro q
  by_cases hq : q = p
  · rw [hq, hp]
  · rw [replay_height hs has hq]
    rfl

/-- `OnStateChange` starts the thread when it is initialized. -/
def startedFirst : List Action :=
  .call (.app 0) none .initialized :: steps (.app 0) 4 ++ .call (.app 0) (some .initialized) .running ::
    steps (.app 0) 24

/-- The observer receives the initialization last. -/
theorem delivered_out_of_order : ¬ ∀ (h : Handlers) (o : Observer) (x : Machine × List Event),
    h.observers.Nodup → o ∈ h.observers → (system h).Reachable x →
      delivered o x.2 <+: changes x.2 ∧ (x.1.Idle → ∀ oldState newState,
        (delivered o x.2).getLast? = some (oldState, newState) → newState = x.1.threadState) := by
  intro hall
  have hrun : ((system oneObserver).replay (.start, []) startedFirst).map
      (fun x => (delivered 0 x.2, x.1.threadState, x.1.height (.app 0))) =
      some ([(.initialized, .running), (.uninitialized, .initialized)], .running, 0) := by
    decide +kernel
  obtain ⟨x, hs, hp⟩ := Option.map_eq_some_iff.1 hrun
  simp only [Prod.mk.injEq] at hp
  have hr := System.reachable_of_replay (S := system oneObserver) ⟨rfl, rfl⟩ hs
  have hidle : x.1.Idle := idle_of_replay hs (by decide) hp.2.2
  have hlast := (hall oneObserver 0 x (by decide) (by decide) hr).2 hidle .uninitialized .initialized (by simp [hp.1])
  rw [hp.2.1] at hlast
  cases hlast

/-- The observer starts the thread from its own `OnThreadStateChanged`. -/
def startedByObserver : List Action :=
  .call (.app 0) none .initialized :: steps (.app 0) 10 ++ .call (.app 0) (some .initialized) .running ::
    steps (.app 0) 20

theorem delivered_in_order : ∃ x, (system oneObserver).ReachableWhen
      (fun x a => StoresAfter (.onThreadStateChanged 0) x.1 a) x ∧
    delivered 0 x.2 = [(.uninitialized, .initialized), (.initialized, .running)] ∧
    (delivered 0 x.2).Perm (changes x.2) ∧ delivered 0 x.2 = changes x.2 := by
  have hrun : ((system oneObserver).replayWhen (fun x a => StoresAfter (.onThreadStateChanged 0) x.1 a) (.start, [])
      startedByObserver).map (fun x => (delivered 0 x.2, x.1.height (.app 0))) =
      some ([(.uninitialized, .initialized), (.initialized, .running)], 0) := by
    decide +kernel
  obtain ⟨x, hs, hp⟩ := Option.map_eq_some_iff.1 hrun
  simp only [Prod.mk.injEq] at hp
  have hr := System.reachableWhen_of_replayWhen (S := system oneObserver) ⟨rfl, rfl⟩ hs
  have hidle : x.1.Idle := idle_of_replay (System.replay_of_replayWhen hs) (by decide) hp.2
  have hdelivered := observer_deliveries oneObserver (by decide) 0 (by decide) x
  exact ⟨x, hr, hp.1, hdelivered.1 hr.reachable hidle, ((hdelivered.2 hr).2 hidle).1⟩

end ESPressio.Dispatch
