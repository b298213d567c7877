import RustyOs.Polled
import RustyOs.TaskQueue

/-!
`Executor::run`, with one of its tasks in detail.

The executor runs the tasks that are ready and halts the processor when there are none
(`run` and `sleep_if_idle`). One task is followed through the steps of its polls, the others
may do anything. There is one `AtomicWaker`, in which only that task leaves its waker.
Interrupts come in between any two steps while they are not masked, and end a halt.
-/

namespace RustyOs.Kernel

open RustyOs.Tasks RustyOs.TaskQueue RustyOs.TaskRuns RustyOs.Machine RustyOs.Polled

variable {β σ ι : Type}

/-- Where `sleep_if_idle` stands: interrupts are masked before the look at the queue, and until
the halt if the queue was empty. -/
inductive Sleep
  | awake
  | masked
  | idle
  | halted
  deriving DecidableEq

structure State (β σ : Type) where
  sys : Sys
  sleep : Sleep
  /-- The `AtomicWaker`. -/
  slot : Option Task
  stage : β
  source : σ

def State.initial (b : β) (d : σ) : State β σ := ⟨.initial, .awake, none, b, d⟩

inductive Event (ι : Type)
  | exec (e : Tasks.Event)
  | act
  | irq (i : ι)
  | tick
  | sleepIfIdle

/-- Task number `k` is in a poll. -/
def polls (k : ℕ) : Phase → Bool
  | .polling _ t => t = task k
  | _ => false

def isReturn : Tasks.Event → Bool
  | .ready => true
  | .pending => true
  | _ => false

def isWake : Tasks.Event → Bool
  | .wake _ => true
  | _ => false

/-- `AtomicWaker::wake`. -/
def State.wake (s : State β σ) : Option (State β σ) :=
  match s.slot with
  | none => some s
  | some w => (wakeTask s.sys w).map fun sys => { s with sys := sys, slot := none }

/-- A step of the poll that `entry` has led to. The waker of the poll is the one in the cache. -/
def State.act (s : State β σ) (entry : Task) : Act β σ → Option (State β σ)
  | .go b d => some { s with stage := b, source := d }
  | .register b => some { s with stage := b, slot := s.sys.executor.wakerCache entry.id }
  | .take b d => some { s with stage := b, source := d, slot := none }
  | .pending b => (s.sys.next .pending).map fun sys => { s with sys := sys, stage := b }
  | .ready => (s.sys.next .ready).map fun sys => { s with sys := sys }
  | .panic => none

def State.sleepIfIdle (s : State β σ) : Option (State β σ) :=
  match s.sleep with
  | .awake => if s.sys.phase = .outside then some { s with sleep := .masked } else none
  | .masked =>
    if s.sys.executor.taskQueue = [] then some { s with sleep := .idle }
    else some { s with sleep := .awake }
  | .idle => some { s with sleep := .halted }
  | .halted => none

def State.next (P : Poller β σ ι) (k : ℕ) (s : State β σ) : Event ι → Option (State β σ)
  | .exec e =>
    if s.sleep = .awake ∧ ¬ (polls k s.sys.phase ∧ isReturn e) ∨ s.sleep = .halted ∧ isWake e then
      (s.sys.next e).map fun sys => { s with sys := sys, sleep := .awake }
    else none
  | .act =>
    match s.sys.phase with
    | .polling entry t => if t = task k then s.act entry (P.step s.stage s.source) else none
    | _ => none
  | .irq i =>
    if s.sleep = .awake ∨ s.sleep = .halted then
      match P.irq i s.source with
      | none => none
      | some (d, wakes) =>
        if wakes then { s with source := d, sleep := .awake }.wake
        else some { s with source := d, sleep := .awake }
    else none
  | .tick => if s.sleep = .halted then some { s with sleep := .awake } else some s
  | .sleepIfIdle => s.sleepIfIdle

/-! ### What the executor does to one task -/

/-- The executor holds task number `k`. -/
def lives (k : ℕ) (s : Sys) : Bool := s.executor.tasks (task k).id = some (task k)

/-- The executor leaves the task alone, or spawns it, or wakes it, or polls it. -/
inductive Touch (k : ℕ) (s s' : Sys) : Prop
  | none (hl : lives k s' = lives k s) (hp : polls k s'.phase = polls k s.phase)
      (hn : s'.notified k = s.notified k)
  | spawn (hl : lives k s' = true) (hp : polls k s'.phase = polls k s.phase)
      (hn : s'.notified k = true)
  | wake (hl : lives k s' = lives k s) (hp : polls k s'.phase = polls k s.phase)
      (hn : s'.notified k = true)
  | resume (hs : lives k s = true ∧ polls k s.phase = false) (hl : lives k s' = true)
      (hp : polls k s'.phase = true) (hn : s'.notified k = false)

variable {k : ℕ} {x x' : Sys} {t w : Tasks.Task}

lemma eq_task (ht : t = task t.serial) (hk : t.serial = k) : t = task k := by rw [ht, hk]

lemma touch_wakeTask (h : wakeTask x w = some x') : Touch k x x' := by
  obtain rfl := wakeTask_eq_some h
  by_cases hk : k = w.serial
  · exact .wake rfl rfl (by simp [hk])
  · exact .none rfl rfl (Function.update_of_ne hk _ _)

lemma touch_spawn (hd : Due x) (h : x.next (.spawn t) = some x') : Touch k x x' := by
  cases step_of_next h
  case spawn hp hm hnone =>
  by_cases hk : t = task k
  · subst hk
    exact .spawn (by simp [lives]) rfl (by simp [task])
  · have hser : k ≠ t.serial := fun h => hk (eq_task (hd.unspawned t hm) h.symm)
    refine .none ?_ rfl (Function.update_of_ne hser _ _)
    by_cases hid : (task k).id = t.id
    · simp [lives, hid, hnone, hk]
    · simp [lives, Function.update_of_ne hid]

lemma touch_pop (h : x.next .pop = some x') : Touch k x x' := by
  cases step_of_next h with
  | leave hp => exact .none rfl (by simp [polls, hp]) rfl
  | pop hp => exact .none rfl (by simp [polls, hp]) rfl

lemma touch_look (hd : Due x) (h : x.next .look = some x') : Touch k x x' := by
  cases step_of_next h with
  | stale hp => exact .none rfl (by simp [polls, hp]) rfl
  | @look e t hp ht =>
    obtain ⟨hid, htask⟩ := hd.task _ t ht
    by_cases hk : t = task k
    · subst hk
      have hl : lives k x = true := by
        rw [← hid] at ht
        simp [lives, ht]
      exact .resume ⟨hl, by simp [polls, hp]⟩ hl (by simp [polls]) (by simp [task])
    · have hser : k ≠ t.serial := fun h => hk (eq_task htask h.symm)
      exact .none rfl (by simp [polls, hp, hk]) (Function.update_of_ne hser _ _)

lemma touch_ready (hd : Due x) (hne : polls k x.phase = false) (h : x.next .ready = some x') :
    Touch k x x' := by
  cases step_of_next h
  case ready e t hp =>
  have ht := (hd.polling e t hp).1
  have hk : t ≠ task k := by simpa [polls, hp] using hne
  refine .none ?_ (by simp [polls, hp, hk]) rfl
  by_cases hid : (task k).id = e.id
  · simp [lives, Executor.remove, hid, ht, hk]
  · simp [lives, Executor.remove, Function.update_of_ne hid]

lemma touch_pending (hne : polls k x.phase = false) (h : x.next .pending = some x') :
    Touch k x x' := by
  cases step_of_next h
  exact .none rfl hne.symm rfl

lemma touch_next (hd : Due x) {e : Tasks.Event} (hne : ¬ (polls k x.phase ∧ isReturn e))
    (h : x.next e = some x') : Touch k x x' := by
  cases e with
  | create =>
    cases step_of_next h
    exact .none rfl rfl rfl
  | spawn t => exact touch_spawn hd h
  | enter =>
    cases step_of_next h
    case enter hp => exact .none rfl (by simp [polls, hp]) rfl
  | pop => exact touch_pop h
  | look => exact touch_look hd h
  | ready => exact touch_ready hd (by simpa [isReturn] using hne) h
  | pending => exact touch_pending (by simpa [isReturn] using hne) h
  | wake w => exact touch_wakeTask (next_wake h).2

/-! ### One task seen through the kernel -/

/-- The world as task number `k` has it. -/
def State.view (k : ℕ) (s : State β σ) : View β σ where
  stage := s.stage
  source := s.source
  live := lives k s.sys
  polled := polls k s.sys.phase
  slot := s.slot.isSome
  notified := s.sys.notified k

/-- The queue is in order, the slot is for the task, and the processor halts on an empty queue. -/
structure Inv (k : ℕ) (s : State β σ) : Prop where
  due : Due s.sys
  slot : ∀ w ∈ s.slot, w = task k
  outside : s.sleep ≠ .awake → s.sys.phase = .outside
  empty : s.sleep = .idle ∨ s.sleep = .halted → s.sys.executor.taskQueue = []

lemma inv_initial (k : ℕ) (b : β) (d : σ) : Inv k (.initial b d) :=
  ⟨due_initial, by simp [State.initial], by simp [State.initial], by simp [State.initial]⟩

variable {P : Poller β σ ι} {s s' : State β σ}

variable {p : ι → Prop}

/-- A step of the kernel is a step of the view, or none. -/
def Follows (P : Poller β σ ι) (p : ι → Prop) (v v' : View β σ) : Prop :=
  v' = v ∨ ∃ m : Move ι, m.Ok p ∧ View.next P v m = some v'

lemma Touch.follows (h : Touch k s.sys x') (sleep : Sleep) :
    Follows P p (s.view k) ({ s with sys := x', sleep := sleep }.view k) := by
  cases h with
  | none hl hp hn =>
    left
    simp [State.view, hl, hp, hn]
  | spawn hl hp hn =>
    right
    exact ⟨.spawn, trivial, by simp [State.view, View.next, hl, hp, hn]⟩
  | wake hl hp hn =>
    right
    exact ⟨.wake, trivial, by simp [State.view, View.next, hl, hp, hn]⟩
  | resume hs hl hp hn =>
    right
    exact ⟨.resume, trivial, by simp [State.view, View.next, hs, hl, hp, hn]⟩

lemma next_exec {e : Tasks.Event} (hs : s.next P k (.exec e) = some s') :
    ¬ (polls k s.sys.phase ∧ isReturn e) ∧
      ∃ x, s.sys.next e = some x ∧ s' = { s with sys := x, sleep := .awake } := by
  rw [State.next] at hs
  split_ifs at hs with hc
  obtain ⟨x, hx, rfl⟩ := Option.map_eq_some_iff.mp hs
  refine ⟨?_, x, hx, rfl⟩
  rcases hc with ⟨-, hne⟩ | ⟨-, hw⟩
  · exact hne
  · rintro ⟨-, hr⟩
    cases e <;> simp_all [isWake, isReturn]

lemma next_act (hs : s.next P k .act = some s') :
    ∃ e, s.sys.phase = .polling e (task k) ∧ s.act e (P.step s.stage s.source) = some s' := by
  rw [State.next] at hs
  split at hs
  case h_2 => cases hs
  case h_1 e t hp =>
  split_ifs at hs with ht
  subst ht
  exact ⟨e, hp, hs⟩

lemma next_irq {i : ι} (hs : s.next P k (.irq i) = some s') :
    ∃ d wakes, P.irq i s.source = some (d, wakes) ∧
      (if wakes then State.wake { s with source := d, sleep := .awake }
        else some { s with source := d, sleep := .awake }) = some s' := by
  rw [State.next] at hs
  split_ifs at hs
  split at hs
  case h_1 => cases hs
  case h_2 d wakes hi => exact ⟨d, wakes, hi, hs⟩

lemma Inv.register (h : Inv k s) {e : Task} (hp : s.sys.phase = .polling e (task k)) :
    s.sys.executor.wakerCache e.id = some (task k) := (h.due.polling e _ hp).2

lemma Inv.awake (h : Inv k s) {e t : Task} (hp : s.sys.phase = .polling e t) :
    s.sleep = .awake := by
  by_contra hne
  rw [h.outside hne] at hp
  cases hp

lemma Inv.act (h : Inv k s) (hs : s.next P k .act = some s') :
    Inv k s' ∧ Follows P p (s.view k) (s'.view k) := by
  obtain ⟨e, hp, hs⟩ := next_act hs
  have hpolled : (s.view k).polled = true := by simp [State.view, polls, hp]
  have hawake := h.awake hp
  -- the step of the view is the one with the same act
  suffices hgoal : Inv k s' ∧ (s.view k).act (P.step s.stage s.source) = some (s'.view k) from
    ⟨hgoal.1, .inr ⟨.act, trivial, by rw [View.next, if_pos hpolled]; exact hgoal.2⟩⟩
  rcases ha : P.step s.stage s.source with ⟨b, d⟩ | b | ⟨b, d⟩ | b | _ | _ <;>
    rw [ha, State.act] at hs
  · cases hs
    exact ⟨⟨h.due, h.slot, h.outside, h.empty⟩, rfl⟩
  · cases hs
    have hr := h.register hp
    refine ⟨⟨h.due, ?_, h.outside, h.empty⟩, ?_⟩
    · simp [hr]
    · simp [View.act, State.view, hr]
  · cases hs
    exact ⟨⟨h.due, by simp, h.outside, h.empty⟩, rfl⟩
  · obtain ⟨x, hx, rfl⟩ := Option.map_eq_some_iff.mp hs
    refine ⟨⟨h.due.pending hx, h.slot, by simp [hawake], by simp [hawake]⟩, ?_⟩
    simp only [Sys.next, hp] at hx
    obtain rfl := Option.some.inj hx
    rfl
  · obtain ⟨x, hx, rfl⟩ := Option.map_eq_some_iff.mp hs
    refine ⟨⟨h.due.ready hx, h.slot, by simp [hawake], by simp [hawake]⟩, ?_⟩
    have hid := (h.due.task _ _ (h.due.polling e _ hp).1).1
    simp only [Sys.next, hp] at hx
    obtain rfl := Option.some.inj hx
    simp [View.act, State.view, lives, polls, Executor.remove, hid]
  · cases hs

lemma Inv.irq (h : Inv k s) {i : ι} (hok : p i) (hs : s.next P k (.irq i) = some s') :
    Inv k s' ∧ Follows P p (s.view k) (s'.view k) := by
  obtain ⟨d, wakes, hi, hs⟩ := next_irq hs
  suffices hgoal : Inv k s' ∧ s'.view k = (s.view k).interrupt d wakes from
    ⟨hgoal.1, .inr ⟨.irq i, hok, by rw [hgoal.2]; simp [View.next, State.view, hi]⟩⟩
  cases wakes with
  | false =>
    obtain rfl := Option.some.inj hs
    exact ⟨⟨h.due, h.slot, by simp, by simp⟩, rfl⟩
  | true =>
    simp only [if_true, State.wake] at hs
    rcases hw : s.slot with _ | w <;> rw [hw] at hs
    · obtain rfl := Option.some.inj hs
      exact ⟨⟨h.due, by simp, by simp, by simp⟩, by simp [State.view, View.interrupt, hw]⟩
    · obtain rfl := h.slot w (by simp [hw])
      obtain ⟨x, hx, rfl⟩ := Option.map_eq_some_iff.mp hs
      refine ⟨⟨h.due.wakeTask rfl hx, by simp, by simp, by simp⟩, ?_⟩
      obtain rfl := wakeTask_eq_some hx
      simp [State.view, View.interrupt, lives, hw, task]

lemma Inv.sleepIfIdle (h : Inv k s) (hs : s.next P k .sleepIfIdle = some s') :
    Inv k s' ∧ Follows P p (s.view k) (s'.view k) := by
  rw [State.next, State.sleepIfIdle] at hs
  split at hs
  case h_1 =>
    split_ifs at hs with hp
    obtain rfl := Option.some.inj hs
    exact ⟨⟨h.due, h.slot, fun _ => hp, by simp⟩, .inl rfl⟩
  case h_2 hm =>
    have hp := h.outside (by simp [hm])
    split_ifs at hs with hq <;> obtain rfl := Option.some.inj hs
    · exact ⟨⟨h.due, h.slot, fun _ => hp, fun _ => hq⟩, .inl rfl⟩
    · exact ⟨⟨h.due, h.slot, by simp, by simp⟩, .inl rfl⟩
  case h_3 hm =>
    obtain rfl := Option.some.inj hs
    exact ⟨⟨h.due, h.slot, fun _ => h.outside (by simp [hm]), fun _ => h.empty (.inl hm)⟩,
      .inl rfl⟩
  case h_4 => cases hs

/-- The interrupts are as promised. -/
def Event.Ok (p : ι → Prop) : Event ι → Prop
  | .irq i => p i
  | _ => True

/-- **The kernel refines the view.** -/
lemma Inv.next (h : Inv k s) {e : Event ι} (hok : e.Ok p) (hs : s.next P k e = some s') :
    Inv k s' ∧ Follows P p (s.view k) (s'.view k) := by
  cases e with
  | exec e =>
    obtain ⟨hne, x, hx, rfl⟩ := next_exec hs
    exact ⟨⟨h.due.next hx, h.slot, by simp, by simp⟩, (touch_next h.due hne hx).follows _⟩
  | act => exact h.act hs
  | irq i => exact h.irq hok hs
  | tick =>
    rw [State.next] at hs
    split_ifs at hs <;> obtain rfl := Option.some.inj hs
    · exact ⟨⟨h.due, h.slot, by simp, by simp⟩, .inl rfl⟩
    · exact ⟨h, .inl rfl⟩
  | sleepIfIdle => exact h.sleepIfIdle hs

/-- The states of the kernel when task number `k` begins at `b`. -/
abbrev Runs (P : Poller β σ ι) (p : ι → Prop) (k : ℕ) (b : β) (d : σ) : State β σ → Prop :=
  Reach (State.next P k) (fun _ e => e.Ok p) (.initial b d)

lemma runs_firstPoll (b : β) (d : σ) :
    Runs P p 0 b d { State.initial b d with sys := firstPoll } := by
  have h : Runs P p 0 b d _ := .start
  have h := Reach.step (e := Event.exec .create) h trivial rfl
  have h := Reach.step (e := Event.exec (.spawn (task 0))) h trivial rfl
  have h := Reach.step (e := Event.exec .enter) h trivial rfl
  have h := Reach.step (e := Event.exec .pop) h trivial rfl
  have h := Reach.step (e := Event.exec .look) h trivial rfl
  exact h

lemma runs_inv {b : β} {d : σ} (h : Runs P p k b d s) :
    Inv k s ∧ Reach (View.next P) (fun _ m => m.Ok p) (.initial b d) (s.view k) := by
  refine h.inv (I := fun s => Inv k s ∧ Reach (View.next P) (fun _ m => m.Ok p) (.initial b d)
    (s.view k)) ⟨inv_initial k b d, .start⟩ fun s e s' hi hok hs => ?_
  obtain ⟨hinv, hsame | ⟨m, hm, hstep⟩⟩ := hi.1.next hok hs
  · exact ⟨hinv, hsame ▸ hi.2⟩
  · exact ⟨hinv, hi.2.step hm hstep⟩

/-- The task waits: it is held by the executor, is in no poll, and none is about to begin. -/
def Suspended (k : ℕ) (s : State β σ) : Prop :=
  lives k s.sys = true ∧ polls k s.sys.phase = false ∧
    ∀ e, s.sys.phase = .popped e → e.id ≠ (task k).id

/-- **A careful task is not forgotten.** When it waits though it could go on, its id is in the
queue. -/
theorem Suspended.mem_queue {b : β} {d : σ} {A : Protocol β σ} (hc : Careful P A)
    (hb : ¬ A.armed b) (h : Runs P p k b d s) (hs : Suspended k s)
    (hd : A.due s.stage s.source) : (task k).id ∈ s.sys.executor.taskQueue.map Task.id := by
  obtain ⟨hinv, hview⟩ := runs_inv h
  obtain ⟨hl, hp, hpop⟩ := hs
  have hn : s.sys.notified k = true := (hc.watched hb hview).due hp hl hd
  refine (hinv.due.entered _ (task k) (by simpa [lives] using hl) hn).resolve_right ?_
  rintro ⟨e, he, hid⟩
  exact hpop e he hid

end RustyOs.Kernel
