import ESPressioThreads.Lib.Channel
import ESPressioThreads.Termination.Generations
/-!
# The order of the dispatches

Workers send their records under `_initializationMutex`, the dispatcher task
receives them. Together they are a bounded channel with one server, whose
stages are the four things the dispatcher does for a record: the `Started`
notification, deleting the task, the rest of `_dispatchTermination`, and the
`Completed` notification after the cleanup pass.
-/

namespace ESPressio.Termination

open Transition ESPressio.Thread ESPressio.Manager Channel

/-- The record in hand, and the next stage. -/
def DispatcherPc.serving : DispatcherPc → Option (ThreadPtr × Nat)
  | .receive => none
  | .notifyStarted t => some (t, 0)
  | .deleteTask t => some (t, 1)
  | .readState t | .callback t _ | .shutdown t _ _ | .give t | .clearPending t => some (t, 2)
  | .callCleanUp t | .cleaning t _ | .notifyCompleted t => some (t, 3)

/-- The channel of the records. -/
def World.channel (s : World) : Channel.State ThreadPtr := ⟨s.queue, s.dispatcher.serving⟩

/-- What a step does to the channel. -/
def mark (s : World) : Action → Option (Mark ThreadPtr)
  | .worker t =>
    match (s.cells t).worker with
    | .send => some (.send t)
    | _ => none
  | .dispatcher =>
    match s.dispatcher with
    | .receive => s.queue.head?.map .receive
    | .notifyStarted t => some (.stage t 0)
    | .deleteTask t => some (.stage t 1)
    | .clearPending t => some (.stage t 2)
    | .notifyCompleted t => some (.stage t 3)
    | _ => none
  | _ => none

/-- A step that the channel sees as the mark it shows, or not at all. -/
def Seen (capacity : Nat) (s s' : World) (e : Option (Mark ThreadPtr)) : Prop :=
  (e = none ∧ s'.channel = s.channel) ∨ ∃ b, stepChannel capacity 4 s.channel b = some s'.channel ∧ some b = e

variable {s s' : World} {t : ThreadPtr} {i : OpId} {capacity coreCount : Nat} {answer : Answer}

theorem Seen.unseen (hq : s'.queue = s.queue) (hd : s'.dispatcher.serving = s.dispatcher.serving) :
    Seen capacity s s' none := by
  refine .inl ⟨rfl, ?_⟩
  simp [World.channel, hq, hd]

theorem Seen.stage {k : Nat} (hq : s'.queue = s.queue) (hd : s.dispatcher.serving = some (t, k))
    (hd' : s'.dispatcher.serving = if k + 1 < 4 then some (t, k + 1) else none) :
    Seen capacity s s' (some (.stage t k)) := by
  refine .inr ⟨.stage t k, ?_, rfl⟩
  simp [stepChannel, World.channel, hq, hd, hd']

theorem stepShutdown_serving {cb : Callback} {pc : ShutdownPc} (h : stepShutdown s t cb pc = some s') :
    s'.queue = s.queue ∧ s'.dispatcher.serving = some (t, 2) := by
  simp only [stepShutdown] at h
  split at h
  · cases h; exact ⟨rfl, rfl⟩
  · cases h; exact ⟨rfl, rfl⟩
  · cases h; exact ⟨rfl, rfl⟩
  · split at h <;> cases h
    exact ⟨rfl, rfl⟩
  · split at h <;> cases h
    exact ⟨rfl, rfl⟩
  · cases h
    split <;> exact ⟨rfl, rfl⟩
  · split at h <;> cases h
    exact ⟨rfl, rfl⟩

theorem stepDispatcher_seen (h : stepDispatcher s = some s') : Seen capacity s s' (mark s .dispatcher) := by
  simp only [stepDispatcher] at h
  split at h <;> rename_i hd <;> simp only [mark, hd]
  · split at h <;> cases h
    rename_i t queue hq
    refine .inr ⟨.receive t, ?_, ?_⟩
    · simp [stepChannel, World.channel, hq, hd, DispatcherPc.serving]
    · simp [hq]
  · cases h
    exact .stage rfl (by rw [hd]; rfl) rfl
  · cases h
    exact .stage rfl (by rw [hd]; rfl) rfl
  · split at h <;> cases h <;> exact .unseen rfl (by rw [hd]; rfl)
  · obtain ⟨hq, hs⟩ := stepShutdown_serving h
    exact .unseen hq (by rw [hs, hd]; rfl)
  · cases h
    exact .unseen rfl (by rw [hd]; rfl)
  · cases h
    exact .stage rfl (by rw [hd]; rfl) rfl
  · split at h <;> cases h
    exact .unseen rfl (by rw [hd]; rfl)
  · cases h
    exact .stage rfl (by rw [hd]; rfl) rfl
  · cases h
  · cases h

theorem stepWorker_seen (h : stepWorker capacity s t = some s') : Seen capacity s s' (mark s (.worker t)) := by
  simp only [stepWorker] at h
  split at h <;> rename_i hw <;> simp only [mark, hw]
  · split at h <;> cases h <;> exact .unseen rfl rfl
  · split at h <;> cases h <;> exact .unseen rfl rfl
  · split at h <;> cases h <;> exact .unseen rfl rfl
  · cases h
    exact .unseen rfl rfl
  · cases h
    exact .unseen rfl rfl
  · split at h <;> cases h
    exact .unseen rfl rfl
  · split at h <;> cases h
    exact .unseen rfl rfl
  · split at h <;> cases h
    rename_i hroom
    refine .inr ⟨.send t, ?_, rfl⟩
    have hroom : s.channel.queue.length < capacity := hroom
    simp only [stepChannel]
    rw [if_pos hroom]
    rfl
  · cases h
    exact .unseen rfl rfl
  · cases h
    exact .unseen rfl rfl
  · cases h
  · cases h

theorem stepCallback_serving {choice : CallbackChoice} (h : stepCallback s choice = some s') :
    s'.queue = s.queue ∧ s'.dispatcher.serving = s.dispatcher.serving := by
  simp only [stepCallback] at h
  split at h <;> rename_i hd <;> cases h <;> exact ⟨rfl, by rw [hd]; rfl⟩

/-- Each step is one of the channel. -/
theorem step_seen {a : Action} (h : step capacity coreCount s a = some s') : Seen capacity s s' (mark s a) := by
  cases a with
  | terminate t =>
    have hq := stepTerminate_quiet h
    simp only [Termination.step, stepTerminate] at h
    split at h <;> cases h
    exact .unseen hq.queue rfl
  | worker t => exact stepWorker_seen h
  | dispatcher => exact stepDispatcher_seen h
  | callback choice =>
    obtain ⟨hq, hd⟩ := stepCallback_serving h
    exact .unseen hq hd
  | dispatcherCleanUp i =>
    simp only [Termination.step] at h
    split at h
    · rename_i hd
      obtain ⟨m, -, rfl⟩ := Option.map_eq_some_iff.1 h
      exact .unseen rfl (by rw [hd]; rfl)
    · cases h
  | call i request =>
    obtain ⟨m, -, rfl⟩ := Option.map_eq_some_iff.1 h
    exact .unseen rfl rfl
  | op i answer =>
    have hf := stepOperation_frame h
    exact .unseen hf.queue (by rw [hf.dispatcher])

/-! ## The records of all generations -/

/-- A record, with the generation of the worker whose exit it is. -/
abbrev Record := ThreadPtr × Nat

def Generations.tag (x : Generations) : Mark ThreadPtr → Mark Record
  | .send t => .send (t, x.generation t)
  | .receive t => .receive (t, x.generation t)
  | .stage t k => .stage (t, x.hand) k

def Generations.mark (x : Generations) : GenerationsAction → Option (Mark Record)
  | .termination a => (Termination.mark x.world a).map x.tag
  | .initializeThread _ _ => none

/-- A thread in the queue has kept the generation it was sent with. -/
def Generations.channel (x : Generations) : Channel.State Record :=
  ⟨x.world.queue.map fun t => (t, x.generation t), x.world.dispatcher.serving.map fun r => ((r.1, x.hand), r.2)⟩

/-- Runs with what happens to the records. -/
def dispatchSystem (capacity coreCount : Nat) : System (Generations × List (Mark Record)) GenerationsAction :=
  (generations capacity coreCount).logged Generations.mark

variable {x : Generations}

theorem receives_eq (a : Action) : s.receives a = (mark s a).bind Mark.received? := by
  cases a with
  | dispatcher =>
    cases hd : s.dispatcher <;> simp only [World.receives, mark, hd] <;> first
      | rfl
      | (cases s.queue <;> rfl)
  | worker t => simp only [World.receives, mark]; split <;> rfl
  | _ => rfl

/-- A step of the channel is one of the channel with generations. -/
theorem Seen.tagged {a : Action} (h : Seen capacity x.world s (mark x.world a)) :
    let y : Generations := { x with world := s, hand := (x.world.receives a).elim x.hand x.generation }
    (x.mark (.termination a) = none ∧ y.channel = x.channel) ∨
      ∃ b, stepChannel capacity 4 x.channel b = some y.channel ∧ some b = x.mark (.termination a) := by
  intro y
  have hreceives := receives_eq (s := x.world) a
  rcases h with ⟨he, hc⟩ | ⟨b, hs, he⟩
  · obtain ⟨hq, hd⟩ := Channel.State.mk.inj hc
    have hy : y.hand = x.hand := by simp [y, hreceives, he]
    refine .inl ⟨by simp [Generations.mark, he], ?_⟩
    simp only [Generations.channel, hy]
    rw [show y.world = s from rfl, hq, hd]
  · refine .inr ⟨x.tag b, ?_, by simp [Generations.mark, ← he]⟩
    cases b with
    | send t =>
      have hy : y.hand = x.hand := by simp [y, hreceives, ← he, Mark.received?]
      obtain ⟨hroom, hc⟩ := stepChannel_send.1 hs
      obtain ⟨hq, hd⟩ := Channel.State.mk.inj hc
      refine stepChannel_send.2 ⟨by simpa [Generations.channel, World.channel] using hroom, ?_⟩
      simp only [Generations.channel, hy]
      rw [show y.world = s from rfl, hq, hd]
      simp [World.channel, y]
    | receive t =>
      have hy : y.hand = x.generation t := by simp [y, hreceives, ← he, Mark.received?]
      obtain ⟨hserving, queue, hqueue, hc⟩ := stepChannel_receive.1 hs
      obtain ⟨hq, hd⟩ := Channel.State.mk.inj hc
      have hserving : x.world.dispatcher.serving = none := hserving
      have hqueue : x.world.queue = t :: queue := hqueue
      refine stepChannel_receive.2 ⟨by simp [Generations.channel, hserving],
        queue.map fun u => (u, x.generation u), by simp [Generations.channel, hqueue], ?_⟩
      simp only [Generations.channel, hy]
      rw [show y.world = s from rfl, hq, hd]
      rfl
    | stage t k =>
      have hy : y.hand = x.hand := by simp [y, hreceives, ← he, Mark.received?]
      obtain ⟨hserving, hc⟩ := stepChannel_stage.1 hs
      obtain ⟨hq, hd⟩ := Channel.State.mk.inj hc
      have hserving : x.world.dispatcher.serving = some (t, k) := hserving
      refine stepChannel_stage.2 ⟨by simp [Generations.channel, hserving], ?_⟩
      simp only [Generations.channel, hy]
      rw [show y.world = s from rfl, hq, hd]
      simp only [World.channel, Channel.State.mk.injEq]
      refine ⟨rfl, ?_⟩
      split <;> rfl

/-- `Initialize` finds no record of its thread in the queue. -/
def QueueApart (x : Generations) : GenerationsAction → Prop
  | .termination _ => True
  | .initializeThread t _ => t ∉ x.world.queue

/-- Workers, dispatcher and `Initialize` run a bounded channel. -/
theorem channel_simulation (capacity coreCount : Nat) :
    System.Simulation (generations capacity coreCount) Generations.mark QueueApart (channel Record capacity 4)
      (fun _ e => some e) (fun x c => c = x.channel) := by
  refine .of_map ?_ ?_
  · rintro ⟨s, generation, hand⟩ ⟨⟨registry, cells, -, -, rfl⟩, -, -⟩
    rfl
  · intro x b y hb hs
    cases b with
    | termination a =>
      obtain ⟨s, hstep, rfl⟩ := Option.map_eq_some_iff.1 hs
      exact (step_seen hstep).tagged
    | initializeThread t outcome =>
      simp only [generations, stepGenerations] at hs
      split at hs <;> cases hs
      refine .inl ⟨rfl, ?_⟩
      have hkept : ∀ u ∈ x.world.queue, (u, Function.update x.generation t (x.generation t + 1) u) =
          (u, x.generation u) := by
        intro u hu
        have hut : u ≠ t := by
          rintro rfl
          exact hb hu
        rw [Function.update_of_ne hut]
      simp only [Generations.channel]
      rw [show (x.world.setCell t _).queue = x.world.queue from rfl, List.map_congr_left hkept]
      rfl

theorem oneRecord_reachable {l : List (Mark Record)} (h : (dispatchSystem capacity coreCount).Reachable (x, l)) :
    OneRecord x.world := by
  refine h.invariant (I := fun x => OneRecord x.1.world) (fun x hx => ?_) fun x b y hi _ hs => ?_
  · obtain ⟨⟨⟨registry, cells, -, hc, hx⟩, -⟩, -⟩ := hx
    rw [hx]
    exact oneRecord_start hc
  · obtain ⟨hst, -⟩ := System.logged_step.1 hs
    cases b with
    | termination a =>
      obtain ⟨s, hstep, hy⟩ := Option.map_eq_some_iff.1 hst
      rw [← hy]
      exact hi.step hstep
    | initializeThread t outcome =>
      simp only [generations, stepGenerations] at hst
      split at hst
      · rename_i hc
        rw [← Option.some.inj hst]
        exact hi.initializeThread hc
      · cases hst

/-! ## One record for each worker -/

theorem mark_sent {a : Action} {e : Mark ThreadPtr} (h : mark s a = some e) (he : e.sent? = some t) :
    a = .worker t ∧ (s.cells t).worker = .send := by
  cases e with
  | receive | stage => cases he
  | send u =>
    cases he
    cases a with
    | worker t =>
      simp only [mark] at h
      split at h <;> cases h
      exact ⟨rfl, ‹_›⟩
    | dispatcher =>
      simp only [mark] at h
      split at h <;> simp at h
    | terminate | callback | dispatcherCleanUp | call | op => cases h

theorem tag_sent (x : Generations) (e : Mark ThreadPtr) :
    (x.tag e).sent? = e.sent?.map fun t => (t, x.generation t) := by
  cases e <;> rfl

/-- What was sent, and by which workers. -/
structure SentOnce (x : Generations × List (Mark Record)) : Prop where
  pairwise : (sent x.2).Pairwise fun r r' => r.1 = r'.1 → r.2 < r'.2
  bound : ∀ r ∈ sent x.2, r.2 ≤ x.1.generation r.1
  after : ∀ r ∈ sent x.2, r.2 = x.1.generation r.1 → ¬ (x.1.world.cells r.1).worker.BeforeSend

theorem SentOnce.termination {a : Action} {l : List (Mark Record)} {hand : Nat} (h : SentOnce (x, l))
    (hs : step capacity coreCount x.world a = some s) :
    SentOnce ({ x with world := s, hand := hand }, l ++ (x.mark (.termination a)).toList) := by
  have hafter : ∀ r ∈ sent l, r.2 = x.generation r.1 → ¬ (s.cells r.1).worker.BeforeSend :=
    fun r hr hg hb => h.after r hr hg ((step_later hs r.1).beforeSend hb)
  cases hmark : mark x.world a with
  | none =>
    simp only [Generations.mark, hmark, Option.map_none, Option.toList_none, List.append_nil]
    exact ⟨h.pairwise, h.bound, hafter⟩
  | some e =>
    have hsent : sent (l ++ (x.mark (.termination a)).toList) =
        sent l ++ (e.sent?.map fun t => (t, x.generation t)).toList := by
      simp only [Generations.mark, hmark, Option.map_some, Option.toList_some]
      rw [sent_concat, tag_sent]
    cases he : e.sent? with
    | none =>
      rw [he, Option.map_none, Option.toList_none, List.append_nil] at hsent
      refine ⟨?_, ?_, ?_⟩ <;> dsimp only <;> rw [hsent]
      · exact h.pairwise
      · exact h.bound
      · exact hafter
    | some t =>
      rw [he, Option.map_some, Option.toList_some] at hsent
      obtain ⟨rfl, hw⟩ := mark_sent hmark he
      -- The worker was about to send, so what its thread sent before is of earlier workers.
      have hearlier : ∀ r ∈ sent l, r.1 = t → r.2 < x.generation t := by
        rintro r hr rfl
        refine Nat.lt_of_le_of_ne (h.bound r hr) fun hg => h.after r hr hg ?_
        rw [hw]
        trivial
      refine ⟨?_, ?_, ?_⟩ <;> dsimp only <;> rw [hsent]
      · refine List.pairwise_append.2 ⟨h.pairwise, List.pairwise_singleton _ _, ?_⟩
        intro r hr r' hr' he
        obtain rfl := List.mem_singleton.1 hr'
        exact hearlier r hr he
      · intro r hr
        rcases List.mem_append.1 hr with hr | hr
        · exact h.bound r hr
        · obtain rfl := List.mem_singleton.1 hr
          exact Nat.le_refl _
      · intro r hr
        rcases List.mem_append.1 hr with hr | hr
        · exact hafter r hr
        · obtain rfl := List.mem_singleton.1 hr
          intro _
          simp only [step, stepWorker, hw] at hs
          split at hs <;> cases hs
          simp [World.setCell, WorkerPc.BeforeSend]

theorem SentOnce.initializeThread {outcome : Outcome} {l : List (Mark Record)} (h : SentOnce (x, l)) :
    SentOnce ({ x with
      world := x.world.setCell t ((x.world.cells t).initializeThread outcome)
      generation := Function.update x.generation t (x.generation t + 1) }, l) := by
  refine ⟨h.pairwise, fun r hr => ?_, fun r hr hg => ?_⟩ <;> dsimp only at *
  · have := h.bound r hr
    dsimp only at this
    rw [Function.update_apply]
    split
    · rename_i hrt
      rw [hrt] at this
      omega
    · exact this
  · by_cases hrt : r.1 = t
    · have := h.bound r hr
      dsimp only at this
      rw [hrt, Function.update_self] at hg
      rw [hrt] at this
      omega
    · rw [Function.update_of_ne hrt] at hg
      simpa [World.setCell, hrt] using h.after r hr hg

theorem sentOnce_reachable {x : Generations × List (Mark Record)}
    (h : (dispatchSystem capacity coreCount).Reachable x) : SentOnce x := by
  refine h.invariant (fun x hx => ?_) fun x b y hi _ hs => ?_
  · obtain ⟨x, l⟩ := x
    obtain ⟨-, hl⟩ := hx
    cases hl
    refine ⟨List.Pairwise.nil, ?_, ?_⟩ <;>
      · intro r hr
        cases hr
  · obtain ⟨x, l⟩ := x
    obtain ⟨y, l'⟩ := y
    obtain ⟨hst, hl⟩ := System.logged_step.1 hs
    cases b with
    | termination a =>
      cases hl
      obtain ⟨s, hstep, rfl⟩ := Option.map_eq_some_iff.1 hst
      exact hi.termination hstep
    | initializeThread t outcome =>
      obtain rfl : l' = l := hl.trans (List.append_nil l)
      simp only [generations, stepGenerations] at hst
      split at hst <;> cases hst
      exact hi.initializeThread

/-! ## The order -/

/-- The records are served one by one, a worker sends one at most, and a thread
sends the next when `_dispatchTermination` is through with the last. -/
structure InOrder (capacity : Nat) (l : List (Mark Record)) : Prop where
  served : Served capacity 4 l
  workers : (sent l).Pairwise fun r r' => r.1 = r'.1 → r.2 < r'.2
  one : ∀ t, ((sent l).map Prod.fst).count t ≤ ((passed 2 l).map Prod.fst).count t + 1

/-- What is on its way in the channel are the outstanding records. -/
theorem channel_nodup (h : Records x.world) : ((x.channel.due 2 ++ x.channel.queue).map Prod.fst).Nodup := by
  have hqueue : x.channel.queue.map Prod.fst = x.world.queue := by
    simp [Generations.channel, Function.comp_def]
  have hdue : (x.channel.due 2).map Prod.fst = x.world.dispatcher.record.toList := by
    cases hd : x.world.dispatcher <;>
      simp [Generations.channel, Channel.State.due, hd, DispatcherPc.serving, DispatcherPc.record]
  rw [List.map_append, hqueue, hdue]
  cases hr : x.world.dispatcher.record with
  | none => simpa using h.nodup
  | some t => simpa using ⟨h.current t hr, h.nodup⟩

/-- Each worker sends one record at most, and the dispatcher takes the records
through all their stages one by one, in the order in which they were sent. -/
theorem dispatched_in_order (capacity coreCount : Nat) (x : Generations × List (Mark Record))
    (h : (dispatchSystem capacity coreCount).Reachable x) : InOrder capacity x.2 := by
  have hone := oneRecord_reachable (x := x.1) (l := x.2) h
  have hwhen : (dispatchSystem capacity coreCount).ReachableWhen (fun x b => QueueApart x.1 b) x := by
    refine h.strengthen fun x b y hr _ hs => ?_
    cases b with
    | termination a => trivial
    | initializeThread t outcome =>
      intro hmem
      have hone := oneRecord_reachable (x := x.1) (l := x.2) hr
      obtain ⟨hst, -⟩ := System.logged_step.1 hs
      simp only [generations, stepGenerations] at hst
      split at hst
      · rename_i hc
        have hpending := (Cell.initializable_iff.1 hc).2.1
        rw [hone.outstanding t (.inl hmem)] at hpending
        cases hpending
      · cases hst
  obtain ⟨c, hc, rfl⟩ := (channel_simulation capacity coreCount).reachable hwhen
  have hconserved := conserved_reachable hc
  refine ⟨served hc, (sentOnce_reachable h).pairwise, fun t => ?_⟩
  have hnodup := List.nodup_iff_count_le_one.1 (channel_nodup hone.records) t
  rw [← hconserved.queue, ← hconserved.passed 2 (by omega)]
  simp only [List.map_append, List.count_append] at hnodup ⊢
  omega

def terminationSteps (as : List Action) : List GenerationsAction := as.map .termination

/-- Thread 1 exits while the record of thread 2 is being dispatched. Thread 2 is
initialized again before the round of its record is over, and exits once more. -/
theorem second_waits : ∃ x, (dispatchSystem 32 1).Reachable x ∧ InOrder 32 x.2 ∧
    x.2 = [.send (2, 0), .receive (2, 0), .send (1, 0), .stage (2, 0) 0, .stage (2, 0) 1, .stage (2, 0) 2,
      .send (2, 1)] := by
  have hrun : ((dispatchSystem 32 1).replay (⟨twoThreads, fun _ => 0, 0⟩, [])
      (terminationSteps (exitThread 2 ++ [.dispatcher] ++ exitThread 1 ++ List.replicate 3 .dispatcher ++
        List.replicate 2 (.callback .returns) ++ List.replicate 2 .dispatcher) ++
        .initializeThread 2 (.success true) :: terminationSteps (exitThread 2))).map (fun x => x.2) =
      some [.send (2, 0), .receive (2, 0), .send (1, 0), .stage (2, 0) 0, .stage (2, 0) 1, .stage (2, 0) 2,
        .send (2, 1)] := by
    decide
  obtain ⟨x, hs, hl⟩ := Option.map_eq_some_iff.1 hrun
  have hr : (dispatchSystem 32 1).Reachable x :=
    System.reachable_of_replay ⟨⟨twoThreads_init 32 1, rfl, rfl⟩, rfl⟩ hs
  exact ⟨x, hr, dispatched_in_order 32 1 x hr, hl⟩

end ESPressio.Termination
