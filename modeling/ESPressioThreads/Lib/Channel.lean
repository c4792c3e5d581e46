import ESPressioThreads.Lib.Simulation
/-!
# A bounded channel with one server

Any number of senders put items into a queue of limited length. One server takes
them out and works on one item at a time, in stages. Every item then passes
every stage in the order in which the items were sent: nothing is lost, done
twice or overtaken.
-/

namespace Channel

open Transition

/-- The item the server works on comes with its next stage. -/
structure State (τ : Type*) where
  queue : List τ
  serving : Option (τ × Nat)

inductive Mark (τ : Type*)
  | send (t : τ)
  | receive (t : τ)
  | stage (t : τ) (k : Nat)
  deriving DecidableEq

variable {τ : Type*}

section
variable [DecidableEq τ]

def stepChannel (capacity stages : Nat) (c : State τ) : Mark τ → Option (State τ)
  | .send t => if c.queue.length < capacity then some { c with queue := c.queue ++ [t] } else none
  | .receive t =>
    match c.serving, c.queue with
    | none, u :: queue => if u = t then some ⟨queue, some (t, 0)⟩ else none
    | _, _ => none
  | .stage t k =>
    if c.serving = some (t, k) then
      some { c with serving := if k + 1 < stages then some (t, k + 1) else none }
    else none

def channel (τ : Type*) [DecidableEq τ] (capacity stages : Nat) : System (State τ) (Mark τ) where
  init c := c = ⟨[], none⟩
  step := stepChannel capacity stages

end

section
variable [DecidableEq τ] {capacity stages k : Nat} {c c' : State τ} {t : τ}

theorem stepChannel_send : stepChannel capacity stages c (.send t) = some c' ↔
    c.queue.length < capacity ∧ c' = { c with queue := c.queue ++ [t] } := by
  simp only [stepChannel]
  split
  · rename_i hroom
    simp [hroom, eq_comm]
  · rename_i hroom
    simp [hroom]

theorem stepChannel_receive : stepChannel capacity stages c (.receive t) = some c' ↔
    c.serving = none ∧ ∃ queue, c.queue = t :: queue ∧ c' = ⟨queue, some (t, 0)⟩ := by
  simp only [stepChannel]
  split
  · rename_i u queue hserving hqueue
    split
    · rename_i hut
      simp [hserving, hqueue, hut, eq_comm]
    · rename_i hut
      simp [hqueue, hut]
  · rename_i hnot
    refine ⟨by rintro ⟨⟩, ?_⟩
    rintro ⟨hserving, queue, hqueue, -⟩
    exact (hnot t queue hserving hqueue).elim

theorem stepChannel_stage : stepChannel capacity stages c (.stage t k) = some c' ↔
    c.serving = some (t, k) ∧ c' = { c with serving := if k + 1 < stages then some (t, k + 1) else none } := by
  simp only [stepChannel]
  split
  · rename_i hserving
    simp [hserving, eq_comm]
  · rename_i hserving
    simp [hserving]

end

/-! ## What passed -/

def Mark.sent? : Mark τ → Option τ
  | .send t => some t
  | .receive _ | .stage _ _ => none

def Mark.received? : Mark τ → Option τ
  | .receive t => some t
  | .send _ | .stage _ _ => none

def Mark.passed? (k : Nat) : Mark τ → Option τ
  | .stage t j => if j = k then some t else none
  | .send _ | .receive _ => none

def sent (l : List (Mark τ)) : List τ := l.filterMap Mark.sent?

def received (l : List (Mark τ)) : List τ := l.filterMap Mark.received?

/-- The items that passed stage `k`. -/
def passed (k : Nat) (l : List (Mark τ)) : List τ := l.filterMap (Mark.passed? k)

/-- The server does all its stages for one item after the other. -/
structure Served (capacity stages : Nat) (l : List (Mark τ)) : Prop where
  received : received l <+: sent l
  waiting : (sent l).length ≤ (Channel.received l).length + capacity
  /-- Items pass a stage in the order in which they were received, -/
  passed : ∀ k < stages, passed k l <+: Channel.received l
  /-- an earlier stage before a later one, -/
  later : ∀ j k, j ≤ k → k < stages → Channel.passed k l <+: Channel.passed j l
  /-- and the last stage before the next item is received. -/
  one : ∀ k < stages, (Channel.received l).length ≤ (Channel.passed k l).length + 1

/-- What the server has not done to the item it works on. -/
def State.due (c : State τ) (k : Nat) : List τ :=
  match c.serving with
  | some (t, j) => if j ≤ k then [t] else []
  | none => []

/-- What the log shows is what went through the queue and the server. -/
structure Conserved (capacity stages : Nat) (x : State τ × List (Mark τ)) : Prop where
  queue : received x.2 ++ x.1.queue = sent x.2
  capacity : x.1.queue.length ≤ capacity
  passed : ∀ k < stages, passed k x.2 ++ x.1.due k = received x.2

theorem sent_concat (l : List (Mark τ)) (e : Mark τ) : sent (l ++ [e]) = sent l ++ e.sent?.toList := by
  cases e <;> simp [sent, Mark.sent?]

theorem received_concat (l : List (Mark τ)) (e : Mark τ) :
    received (l ++ [e]) = received l ++ e.received?.toList := by
  cases e <;> simp [received, Mark.received?]

theorem passed_concat (k : Nat) (l : List (Mark τ)) (e : Mark τ) :
    passed k (l ++ [e]) = passed k l ++ (e.passed? k).toList := by
  unfold passed
  rw [List.filterMap_append]
  cases h : e.passed? k <;> simp [h]

theorem due_length (c : State τ) (k : Nat) : (c.due k).length ≤ 1 := by
  unfold State.due
  split
  · split <;> simp
  · simp

/-- What is due at a stage is due at every later one. -/
theorem due_mono (c : State τ) {j k : Nat} (h : j ≤ k) : c.due j <+: c.due k := by
  unfold State.due
  split
  · rename_i t i _
    split
    · rename_i hi
      simp [Nat.le_trans hi h]
    · exact List.nil_prefix
  · exact List.nil_prefix

section
variable [DecidableEq τ] {capacity stages : Nat} {c c' : State τ} {l : List (Mark τ)} {e : Mark τ}

theorem Conserved.step (h : Conserved capacity stages (c, l)) (hs : stepChannel capacity stages c e = some c') :
    Conserved capacity stages (c', l ++ [e]) := by
  obtain ⟨hq, hcap, hp⟩ := h
  dsimp only at hq hcap hp
  cases e with
  | send t =>
    obtain ⟨hroom, rfl⟩ := stepChannel_send.1 hs
    refine ⟨?_, ?_, ?_⟩
    · simp [sent_concat, received_concat, Mark.sent?, Mark.received?, ← hq]
    · simpa using Nat.succ_le_of_lt hroom
    · intro k hk
      simpa [passed_concat, received_concat, Mark.passed?, Mark.received?, State.due] using hp k hk
  | receive t =>
    obtain ⟨hserving, queue, hqueue, rfl⟩ := stepChannel_receive.1 hs
    rw [hqueue] at hq hcap
    refine ⟨?_, ?_, ?_⟩
    · simp [sent_concat, received_concat, Mark.sent?, Mark.received?, ← hq]
    · exact Nat.le_of_succ_le hcap
    · intro k hk
      have hk := hp k hk
      simp only [State.due, hserving, List.append_nil] at hk
      simp [passed_concat, received_concat, Mark.passed?, Mark.received?, State.due, hk]
  | stage t k =>
    obtain ⟨hserving, rfl⟩ := stepChannel_stage.1 hs
    refine ⟨?_, hcap, ?_⟩
    · simpa [sent_concat, received_concat, Mark.sent?, Mark.received?] using hq
    · intro j hj
      have hdue := hp j hj
      simp only [State.due, hserving] at hdue
      rw [passed_concat, received_concat, ← hdue]
      -- The item is due at the stages that it has not passed.
      simp only [Mark.passed?, Mark.received?, State.due]
      rcases Nat.lt_trichotomy j k with hjk | hjk | hjk
      · have hnot : ¬ k + 1 ≤ j := by omega
        rw [if_neg (Nat.ne_of_gt hjk), if_neg (Nat.not_le.2 hjk)]
        by_cases hlast : k + 1 < stages <;> simp [hlast, hnot]
      · subst hjk
        by_cases hlast : j + 1 < stages <;> simp [hlast]
      · have hlast : k + 1 < stages := by omega
        have hle : k + 1 ≤ j := by omega
        have hk : k ≤ j := by omega
        rw [if_neg (Nat.ne_of_lt hjk), if_pos hk, if_pos hlast]
        simp [hle]

theorem conserved_reachable {x : State τ × List (Mark τ)}
    (h : ((channel τ capacity stages).logged fun _ e => some e).Reachable x) : Conserved capacity stages x := by
  refine h.invariant (fun x hx => ?_) fun x e y hi _ hs => ?_
  · obtain ⟨hc, hl⟩ := hx
    obtain ⟨c, l⟩ := x
    cases hc
    cases hl
    refine ⟨rfl, Nat.zero_le _, ?_⟩
    intro k _
    rfl
  · obtain ⟨c, l⟩ := x
    obtain ⟨c', l'⟩ := y
    obtain ⟨hst, hl⟩ := System.logged_step.1 hs
    cases hl
    exact hi.step hst

/-- The server serves in every run of the channel. -/
theorem served {x : State τ × List (Mark τ)} (h : ((channel τ capacity stages).logged fun _ e => some e).Reachable x) :
    Served capacity stages x.2 := by
  obtain ⟨hq, hcap, hp⟩ := conserved_reachable h
  refine ⟨⟨_, hq⟩, ?_, fun k hk => ⟨_, hp k hk⟩, ?_, ?_⟩
  · rw [← hq, List.length_append]
    omega
  · intro j k hjk hk
    -- Both are `received` without what is due there.
    have hj := hp j (Nat.lt_of_le_of_lt hjk hk)
    have hlen : (passed k x.2).length ≤ (passed j x.2).length := by
      have hdue := (due_mono x.1 hjk).length_le
      have hlj := congrArg List.length hj
      have hlk := congrArg List.length (hp k hk)
      simp only [List.length_append] at hlj hlk
      omega
    exact List.prefix_of_prefix_length_le ⟨_, hp k hk⟩ ⟨_, hj⟩ hlen
  · intro k hk
    have hdue := due_length x.1 k
    rw [← hp k hk, List.length_append]
    omega

end

end Channel
