import ESPressioThreads.Lib.Chain
import ESPressioThreads.Dispatch.Stacks
/-!
# Re-entrant transitions stay consistent

What the log shows of each stored transition: every handler is called for it
once, in order, but for those whose state the thread has left; and the general
handlers that come before any re-entry begin in the order of the transitions.
-/

namespace ESPressio.Dispatch

open Transition Chain ESPressio.Thread
open ESPressio.Lifecycle (TaskId hasThreadEvent)

/-! ## What the log shows -/

def Event.change : Event → Option (ThreadState × ThreadState)
  | .stored oldState newState => some (oldState, newState)
  | _ => none

/-- The stored transitions, in order. -/
def changes (l : List Event) : List (ThreadState × ThreadState) := l.filterMap Event.change

/-- The handler that began, or was passed over, for the transition `n`. -/
def Event.handledBy (n : Nat) : Event → Option Handler
  | .started number handler _ _ _ | .superseded number handler _ _ => if number = n then some handler else none
  | .stored _ _ => none

/-- What became of the handlers of the transition `n` so far. -/
def handled (n : Nat) (l : List Event) : List Handler := l.filterMap (Event.handledBy n)

@[simp] theorem changes_append (l l' : List Event) : changes (l ++ l') = changes l ++ changes l' :=
  List.filterMap_append

@[simp] theorem handled_append (n : Nat) (l l' : List Event) : handled n (l ++ l') = handled n l ++ handled n l' :=
  List.filterMap_append

/-- The stored states lead along the transition relation. -/
abbrev Path : ThreadState → List (ThreadState × ThreadState) → ThreadState → Prop :=
  Chained fun oldState newState => isValidThreadStateTransition oldState newState = true

def Pc.delivery : Pc → Option Delivery
  | .next d | .call _ d | .running _ d => some d
  | _ => none

/-- The handlers that have neither begun nor been passed over. -/
def Pc.pending : Pc → List Handler
  | .next d | .running _ d => d.rest
  | .call handler d => handler :: d.rest
  | _ => []

/-- The transition `n` is still calling its handlers. -/
def Machine.Delivers (m : Machine) (n : Nat) : Prop := ∃ a d, (m.frames a).pc.delivery = some d ∧ d.number = n

variable {h : Handlers} {m m' m₁ : Machine} {p : TaskId} {k n : Nat} {pc : Pc} {l : List Event} {e : Option Event}
  {a : Action} {x : Machine × List Event}

/-! ## The transition of a call -/

/-- What a step of a call does to its transition: it may pass a handler on, or
end when none is left. -/
inductive Advance (f f' : Frame) : Option Event → Prop
  | off : f'.pc.delivery = none → f.pc.pending = [] → Advance f f' none
  | on (d d' : Delivery) (e : Option Event) : f.pc.delivery = some d → f'.pc.delivery = some d' →
      d'.number = d.number → d'.oldState = d.oldState → f'.newState = f.newState →
      f.pc.pending = handled d.number e.toList ++ f'.pc.pending → (∀ n, n ≠ d.number → handled n e.toList = []) →
      Advance f f' e

/-- Each transition has one call, and has shown the handlers that are no longer
pending. -/
structure Numbered (h : Handlers) (m : Machine) (l : List Event) : Prop where
  count : m.transitions = (changes l).length
  number : ∀ a d, (m.frames a).pc.delivery = some d →
    (changes l)[d.number]? = some (d.oldState, (m.frames a).newState)
  unique : ∀ a b d e, (m.frames a).pc.delivery = some d → (m.frames b).pc.delivery = some e →
    d.number = e.number → a = b
  progress : ∀ a d, (m.frames a).pc.delivery = some d →
    h.calls (m.frames a).newState = handled d.number l ++ (m.frames a).pc.pending
  finished : ∀ n oldState newState, (changes l)[n]? = some (oldState, newState) → ¬ m.Delivers n →
    handled n l = h.calls newState
  unborn : ∀ n, (changes l).length ≤ n → handled n l = []

/-- A step that stores nothing. -/
theorem Numbered.advance (hn : Numbered h m l) (b : TaskId × Nat) (ht : m'.transitions = m.transitions)
    (hf : ∀ a, a ≠ b → m'.frames a = m.frames a) (ha : Advance (m.frames b) (m'.frames b) e)
    (hc : changes e.toList = []) : Numbered h m' (l ++ e.toList) := by
  have hchanges : changes (l ++ e.toList) = changes l := by rw [changes_append, hc, List.append_nil]
  -- A call has the transition that it had.
  have hold : ∀ a d, (m'.frames a).pc.delivery = some d → ∃ d₀, (m.frames a).pc.delivery = some d₀ ∧
      d.number = d₀.number ∧ d.oldState = d₀.oldState ∧ (m'.frames a).newState = (m.frames a).newState := by
    intro a d hd
    by_cases hab : a = b
    · subst hab
      cases ha with
      | off hnone => rw [hnone] at hd; cases hd
      | on d₀ d' _ hd₀ hd' hnum hold hnew =>
        rw [hd'] at hd
        cases hd
        exact ⟨d₀, hd₀, hnum, hold, hnew⟩
    · rw [hf a hab] at hd ⊢
      exact ⟨d, hd, rfl, rfl, rfl⟩
  refine ⟨by rw [ht, hchanges, hn.count], fun a d hd => ?_, fun a c d d' hd hd' he => ?_, fun a d hd => ?_,
    fun n oldState newState hnth hno => ?_, fun n hlen => ?_⟩
  · obtain ⟨d₀, hd₀, hnum, hstate, hnew⟩ := hold a d hd
    rw [hchanges, hnum, hstate, hnew]
    exact hn.number a d₀ hd₀
  · obtain ⟨d₀, hd₀, hnum, -⟩ := hold a d hd
    obtain ⟨d₁, hd₁, hnum', -⟩ := hold c d' hd'
    exact hn.unique a c d₀ d₁ hd₀ hd₁ (hnum.symm.trans (he.trans hnum'))
  · by_cases hab : a = b
    · subst hab
      cases ha with
      | off hnone => rw [hnone] at hd; cases hd
      | on d₀ d' _ hd₀ hd' hnum hold hnew hpend =>
        rw [hd'] at hd
        cases hd
        rw [hnew, hnum, hn.progress a d₀ hd₀, hpend, handled_append, List.append_assoc]
    · have hd₀ := hd
      rw [hf a hab] at hd₀ ⊢
      have hother : handled d.number e.toList = [] := by
        cases ha with
        | off => rfl
        | on d₀ d' _ hb _ _ _ _ _ hothers =>
          exact hothers _ fun he => hab (hn.unique a b d d₀ hd₀ hb he)
      rw [hn.progress a d hd₀, handled_append, hother, List.append_nil]
  · rw [hchanges] at hnth
    by_cases hwas : m.Delivers n
    · -- The transition `n` has just called its last handler.
      obtain ⟨a, d, hd, rfl⟩ := hwas
      have hab : a = b := by
        by_contra hab
        exact hno ⟨a, d, by rw [hf a hab]; exact hd, rfl⟩
      subst hab
      cases ha with
      | off hnone hpend =>
        have hprogress := hn.progress a d hd
        rw [hpend, List.append_nil] at hprogress
        have hnumber := hn.number a d hd
        rw [hnumber] at hnth
        cases hnth
        simpa using hprogress.symm
      | on d₀ d' _ hd₀ hd' hnum =>
        rw [hd] at hd₀
        cases hd₀
        exact absurd ⟨a, d', hd', hnum⟩ hno
    · rw [handled_append, hn.finished n oldState newState hnth hwas]
      have hother : handled n e.toList = [] := by
        cases ha with
        | off => rfl
        | on d₀ d' _ hb _ _ _ _ _ hothers => exact hothers n fun he => hwas ⟨b, d₀, hb, he.symm⟩
      rw [hother, List.append_nil]
  · rw [hchanges] at hlen
    rw [handled_append, hn.unborn n hlen, List.nil_append]
    cases ha with
    | off => rfl
    | on d₀ d' _ hb _ _ _ _ _ hothers =>
      refine hothers n fun he => ?_
      have := hn.number b d₀ hb
      rw [← he, List.getElem?_eq_none hlen] at this
      cases this

/-- A check that stores a transition. -/
theorem Numbered.store (hn : Numbered h m l) (b : TaskId × Nat) (hb : (m.frames b).pc.delivery = none) :
    Numbered h ({ m with threadState := (m.frames b).newState, transitions := m.transitions + 1 }.setPc b
      (.next ⟨m.transitions, m.threadState, h.calls (m.frames b).newState, false⟩))
      (l ++ [.stored m.threadState (m.frames b).newState]) := by
  have hchanges : changes (l ++ [.stored m.threadState (m.frames b).newState]) =
      changes l ++ [(m.threadState, (m.frames b).newState)] := by
    simp [changes, Event.change]
  have hhandled : ∀ n, handled n (l ++ [.stored m.threadState (m.frames b).newState]) = handled n l := by
    intro n
    simp [handled, Event.handledBy]
  have hlt : ∀ a d, (m.frames a).pc.delivery = some d → d.number < (changes l).length := by
    intro a d hd
    exact (List.getElem?_eq_some_iff.1 (hn.number a d hd)).1
  refine ⟨by simp [hchanges, hn.count], fun a d hd => ?_, fun a c d d' hd hd' he => ?_, fun a d hd => ?_,
    fun n oldState newState hnth hno => ?_, fun n hlen => ?_⟩
  · rw [Machine.setPc_frames] at hd ⊢
    split at hd <;> rename_i hab
    · cases hd
      simp [hab, hchanges, hn.count]
    · rw [if_neg hab, hchanges, List.getElem?_append_left (hlt a d hd)]
      exact hn.number a d hd
  · rw [Machine.setPc_frames] at hd hd'
    split at hd <;> rename_i hab <;> split at hd' <;> rename_i hcb
    · rw [hab, hcb]
    · cases hd
      have := hlt c d' hd'
      have hcount := hn.count
      simp only at he
      omega
    · cases hd'
      have := hlt a d hd
      have hcount := hn.count
      simp only at he
      omega
    · exact hn.unique a c d d' hd hd' he
  · rw [Machine.setPc_frames] at hd ⊢
    split at hd <;> rename_i hab
    · cases hd
      simp [hab, hhandled, hn.unborn m.transitions (Nat.le_of_eq hn.count.symm), Pc.pending]
    · rw [if_neg hab, hhandled]
      exact hn.progress a d hd
  · rw [hchanges] at hnth
    rw [hhandled]
    have hne : n ≠ m.transitions := by
      rintro rfl
      exact hno ⟨b, ⟨m.transitions, _, _, _⟩, by rw [Machine.setPc_frames, if_pos rfl]; rfl, rfl⟩
    have hnth : (changes l)[n]? = some (oldState, newState) := by
      have hlen := (List.getElem?_eq_some_iff.1 hnth).1
      rw [List.length_append, List.length_singleton] at hlen
      rwa [List.getElem?_append_left (by have := hn.count; omega)] at hnth
    refine hn.finished n oldState newState hnth fun ⟨a, d, hd, hnum⟩ => hno ⟨a, d, ?_, hnum⟩
    rw [Machine.setPc_frames, if_neg]
    · exact hd
    · rintro rfl
      rw [hb] at hd
      cases hd
  · rw [hhandled]
    rw [hchanges, List.length_append] at hlen
    exact hn.unborn n (by omega)

theorem Numbered.step (hn : Numbered h m l) (hs : Stacks m) (hm : Moved h m a m' e) :
    Numbered h m' (l ++ e.toList) := by
  have hset : ∀ {n : Machine} {b : TaskId × Nat} {t : Pc}, n.frames = m.frames →
      (n.setPc b t).frames b = { m.frames b with pc := t } ∧ ∀ c, c ≠ b → (n.setPc b t).frames c = m.frames c := by
    intro n b t hf
    refine ⟨by rw [Machine.setPc_frames, if_pos rfl, hf], fun c hc => by rw [Machine.setPc_frames, if_neg hc, hf]⟩
  cases hm with
  | call p expected newState =>
    refine hn.advance (p, m.height p) rfl (fun c hc => by rw [Machine.push_frames, if_neg hc]) ?_ rfl
    rw [Machine.push_frames, if_pos rfl]
    refine .off rfl ?_
    rw [hs.above p _ (Nat.le_refl _)]
    rfl
  | initializing =>
    rw [Option.toList_none, List.append_nil]
    exact ⟨hn.count, hn.number, hn.unique, hn.progress, hn.finished, hn.unborn⟩
  | locked p k ok hk hpc =>
    obtain ⟨hb, hf⟩ := hset (n := { m with transitionOwner := some p, transitionDepth := m.transitionDepth + 1 })
      (b := (p, k)) (t := .check) rfl
    refine hn.advance (p, k) rfl hf ?_ rfl
    rw [hb]
    exact .off rfl (by rw [hpc]; rfl)
  | stored p k ok hk hpc => exact hn.store (p, k) (by rw [hpc]; rfl)
  | superseded p k ok d handler rest hk hpc hrest =>
    refine hn.advance (p, k) rfl (hset rfl).2 ?_ rfl
    rw [(hset rfl).1]
    refine .on d _ _ (by rw [hpc]; rfl) rfl rfl rfl rfl ?_ fun n hn' => ?_
    · simp [hpc, Pc.pending, hrest, handled, Event.handledBy]
    · simp [handled, Event.handledBy, Ne.symm hn']
  | chosen p k ok d handler rest hk hpc hrest =>
    refine hn.advance (p, k) rfl (hset rfl).2 ?_ rfl
    rw [(hset rfl).1]
    exact .on d _ _ (by rw [hpc]; rfl) rfl rfl rfl rfl (by rw [hpc]; exact hrest) fun _ _ => rfl
  | started p k ok handler d hk hpc =>
    refine hn.advance (p, k) rfl (hset rfl).2 ?_ rfl
    rw [(hset rfl).1]
    refine .on d d _ (by rw [hpc]; rfl) rfl rfl rfl rfl ?_ fun n hn' => ?_
    · simp [hpc, Pc.pending, handled, Event.handledBy]
    · simp [handled, Event.handledBy, Ne.symm hn']
  | returned p k ok handler d failed hk hpc =>
    refine hn.advance (p, k) rfl (hset rfl).2 ?_ rfl
    rw [(hset rfl).1]
    exact .on d _ _ (by rw [hpc]; rfl) rfl rfl rfl rfl (by rw [hpc]; rfl) fun _ _ => rfl
  | ending p k ok pc hk hpc hto =>
    refine hn.advance (p, k) rfl (hset rfl).2 ?_ rfl
    rw [(hset rfl).1]
    refine .off ?_ ?_
    · rcases hto with rfl | rfl | ⟨throws, rfl⟩ <;> rfl
    · rcases hpc with ⟨d, hpc, hrest⟩ | hpc | hpc | hpc <;> rw [hpc]
      · exact hrest
      · rfl
      · rfl
      · rfl
  | unlocked p k ok throws hk hpc =>
    refine hn.advance (p, k) rfl (fun c hc => by rw [Machine.pop_frames, if_neg hc]) ?_ rfl
    rw [Machine.pop_frames, if_pos rfl]
    exact .off rfl (by rw [hpc]; rfl)

/-! ## The states that handlers see -/

/-- The stored states form a path, and a handler for a state begins in it. -/
structure Observed (m : Machine) (l : List Event) : Prop where
  path : Path .uninitialized (changes l) m.threadState
  calling : ∀ a handler d, (m.frames a).pc = .call handler d → handler.stateSpecific = true →
    m.threadState = (m.frames a).newState
  started : ∀ n handler oldState newState current, .started n handler oldState newState current ∈ l →
    (changes l)[n]? = some (oldState, newState) ∧ (handler.stateSpecific = true → current = newState)
  superseded : ∀ n handler newState current, .superseded n handler newState current ∈ l →
    handler.stateSpecific = true ∧ current ≠ newState

/-- A step that neither stores a transition nor shows a handler. -/
theorem Observed.quiet (ho : Observed m l) (b : TaskId × Nat) (ht : m'.threadState = m.threadState)
    (hf : ∀ a, a ≠ b → m'.frames a = m.frames a)
    (hb : ∀ handler d, (m'.frames b).pc = .call handler d → handler.stateSpecific = true →
      m.threadState = (m'.frames b).newState) : Observed m' l where
  path := ht ▸ ho.path
  calling a handler d hpc hspec := by
    rw [ht]
    by_cases hab : a = b
    · subst hab
      exact hb handler d hpc hspec
    · rw [hf a hab] at hpc ⊢
      exact ho.calling a handler d hpc hspec
  started := ho.started
  superseded := ho.superseded

/-- A log that shows one more handler. -/
theorem Observed.shown {e : Event} (ho : Observed m l) (hc : Event.change e = none)
    (hs : ∀ n handler oldState newState current, e = .started n handler oldState newState current →
      (changes l)[n]? = some (oldState, newState) ∧ (handler.stateSpecific = true → current = newState))
    (hp : ∀ n handler newState current, e = .superseded n handler newState current →
      handler.stateSpecific = true ∧ current ≠ newState) : Observed m (l ++ [e]) := by
  have hchanges : changes (l ++ [e]) = changes l := by simp [changes, hc]
  refine ⟨hchanges ▸ ho.path, ho.calling, fun n handler oldState newState current hm => ?_,
    fun n handler newState current hm => ?_⟩
  · rw [hchanges]
    rcases List.mem_append.1 hm with hm | hm
    · exact ho.started n handler oldState newState current hm
    · exact hs n handler oldState newState current (List.mem_singleton.1 hm).symm
  · rcases List.mem_append.1 hm with hm | hm
    · exact ho.superseded n handler newState current hm
    · exact hp n handler newState current (List.mem_singleton.1 hm).symm

theorem Observed.store (ho : Observed m l) (hs : Stacks m) (hk : m.height p = k + 1)
    (hpc : (m.frames (p, k)).pc = .check) (hstores : (m.frames (p, k)).stores m.threadState) (d : Delivery) :
    Observed ({ m with threadState := (m.frames (p, k)).newState, transitions := m.transitions + 1 }.setPc (p, k)
      (.next d)) (l ++ [.stored m.threadState (m.frames (p, k)).newState]) := by
  have hchanges : changes (l ++ [.stored m.threadState (m.frames (p, k)).newState]) =
      changes l ++ [(m.threadState, (m.frames (p, k)).newState)] := by
    simp [changes, Event.change]
  refine ⟨?_, fun a handler d' hcall hspec => ?_, fun n handler oldState newState current hm => ?_,
    fun n handler newState current hm => ?_⟩
  · rw [hchanges]
    exact ho.path.append hstores.2
  · -- Nobody else is about to call a handler.
    rw [Machine.setPc_frames] at hcall
    split at hcall <;> rename_i hab
    · cases hcall
    · exact absurd (hs.only hk (by rw [hpc]; rfl) (by rw [hcall]; rfl) (by rw [hcall]; rfl)) hab
  · rcases List.mem_append.1 hm with hm | hm
    · obtain ⟨hnth, hcur⟩ := ho.started n handler oldState newState current hm
      rw [hchanges, List.getElem?_append_left (List.getElem?_eq_some_iff.1 hnth).1]
      exact ⟨hnth, hcur⟩
    · cases List.mem_singleton.1 hm
  · rcases List.mem_append.1 hm with hm | hm
    · exact ho.superseded n handler newState current hm
    · cases List.mem_singleton.1 hm

theorem Observed.step (ho : Observed m l) (hs : Stacks m) (hn : Numbered h m l) (hm : Moved h m a m' e) :
    Observed m' (l ++ e.toList) := by
  have hother : ∀ {m₁ : Machine} {b : TaskId × Nat} {pc : Pc}, m₁.frames = m.frames → ∀ c, c ≠ b →
      (m₁.setPc b pc).frames c = m.frames c := by
    intro m₁ b pc hf c hc
    rw [Machine.setPc_frames, if_neg hc, hf]
  have hself : ∀ {m₁ : Machine} {b : TaskId × Nat} {pc : Pc}, (∀ handler d, pc ≠ .call handler d) →
      ∀ handler d, ((m₁.setPc b pc).frames b).pc = .call handler d → handler.stateSpecific = true →
        m.threadState = ((m₁.setPc b pc).frames b).newState := by
    intro m₁ b pc hpc handler d hcall
    rw [Machine.setPc_frames, if_pos rfl] at hcall
    exact absurd hcall (hpc handler d)
  cases hm with
  | call p expected newState =>
    rw [Option.toList_none, List.append_nil]
    refine ho.quiet (p, m.height p) rfl (fun c hc => by rw [Machine.push_frames, if_neg hc]) fun handler d hcall => ?_
    rw [Machine.push_frames, if_pos rfl] at hcall
    cases hcall
  | initializing =>
    rw [Option.toList_none, List.append_nil]
    exact ⟨ho.path, ho.calling, ho.started, ho.superseded⟩
  | locked p k ok hk hpc =>
    rw [Option.toList_none, List.append_nil]
    exact ho.quiet (p, k) rfl (hother rfl) (hself nofun)
  | stored p k ok hk hpc hstores => exact ho.store hs hk hpc hstores _
  | superseded p k ok d handler rest hk hpc hrest hspec hne =>
    have hmoved : Observed (m.setPc (p, k) (.next { d with rest := rest })) l :=
      ho.quiet (p, k) rfl (hother rfl) (hself nofun)
    refine hmoved.shown rfl nofun ?_
    rintro _ _ _ _ ⟨⟩
    exact ⟨hspec, hne⟩
  | chosen p k ok d handler rest hk hpc hrest hspec =>
    rw [Option.toList_none, List.append_nil]
    refine ho.quiet (p, k) rfl (hother rfl) fun handler' d' hcall hspec' => ?_
    rw [Machine.setPc_frames, if_pos rfl] at hcall ⊢
    cases hcall
    exact hspec hspec'
  | started p k ok handler d hk hpc =>
    have hmoved : Observed (m.setPc (p, k) (.running handler d)) l :=
      ho.quiet (p, k) rfl (hother rfl) (hself nofun)
    refine hmoved.shown rfl ?_ nofun
    rintro _ _ _ _ _ ⟨⟩
    exact ⟨hn.number (p, k) d (by rw [hpc]; rfl), fun hspec => ho.calling (p, k) handler d hpc hspec⟩
  | returned p k ok handler d failed hk hpc =>
    rw [Option.toList_none, List.append_nil]
    exact ho.quiet (p, k) rfl (hother rfl) (hself nofun)
  | ending p k ok pc hk hpc hto =>
    rw [Option.toList_none, List.append_nil]
    refine ho.quiet (p, k) rfl (hother rfl) (hself fun handler d he => ?_)
    subst he
    rcases hto with he | he | ⟨throws, he⟩ <;> cases he
  | unlocked p k ok throws hk hpc =>
    rw [Option.toList_none, List.append_nil]
    refine ho.quiet (p, k) rfl (fun c hc => by rw [Machine.pop_frames, if_neg hc]) fun handler d hcall => ?_
    rw [Machine.pop_frames, if_pos rfl] at hcall
    cases hcall

end ESPressio.Dispatch
