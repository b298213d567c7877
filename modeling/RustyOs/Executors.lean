import RustyOs.Machine
import RustyOs.Rotation
import RustyOs.Tasks

/-!
The simple executor (`src/task/simple_executor.rs`) and the executor with wakers, on tasks that
wake themselves.

The simple executor keeps the tasks in a queue and polls them in turn. The other one keeps them
in a map, with their ids in a queue of 100 places; a task whose id is not in the queue is not
polled. If every poll that returns `Pending` calls the waker of its own task once, the id goes
back to the end of the queue just as the task does in the simple executor. A last wake in the
poll that returns `Ready` leaves an id that leads to no task and is passed over.

The insides of the futures and all they share are one state, which a poll may change.
-/

namespace RustyOs.Executors

open RustyOs.Machine RustyOs.Tasks

/-- What a poll has returned, and how often it has called the waker of its context. -/
structure Polled where
  ready : Bool
  wakes : ℕ

structure SimpleExecutor where
  taskQueue : List Tasks.Task

def SimpleExecutor.new : SimpleExecutor := ⟨[]⟩

def SimpleExecutor.spawn (x : SimpleExecutor) (task : Tasks.Task) : SimpleExecutor :=
  ⟨x.taskQueue ++ [task]⟩

variable {σ : Type} (poll : Tasks.Task → σ → σ × Polled)

/-- `run`, with at most `n` turns of its loop: the state it ends in, and the tasks in the order
they were polled. The waker is a dummy. -/
def SimpleExecutor.run : ℕ → SimpleExecutor → σ → Option (σ × List Tasks.Task)
  | 0, x, w => if x.taskQueue.isEmpty then some (w, []) else none
  | n + 1, x, w =>
    match x.taskQueue with
    | [] => some (w, [])
    | task :: rest =>
      let r := poll task w
      (run n ⟨if r.2.ready then rest else rest ++ [task]⟩ r.1).map fun o => (o.1, task :: o.2)

/-- The calls of a waker during a poll. -/
def wakes (x : Executor) (waker : Tasks.Task) : ℕ → Option Executor
  | 0 => some x
  | k + 1 => do wakes (← x.push waker) waker k

/-- The rest of a turn of `run_ready_tasks`, once the id has led to a task. -/
def pollTask (x : Executor) (id : UInt64) (task : Tasks.Task) (r : Polled) : Option Executor :=
  (wakes (x.withWaker id task) (x.wakerFor id task) r.wakes).map fun x =>
    if r.ready then x.remove id else x

/-- `run_ready_tasks`, with at most `n` turns of its loop, if no push to the queue panics. -/
def runReadyTasks : ℕ → Executor → σ → Option (Executor × σ × List Tasks.Task)
  | 0, x, w => if x.taskQueue.isEmpty then some (x, w, []) else none
  | n + 1, x, w =>
    match x.taskQueue with
    | [] => some (x, w, [])
    | entry :: rest =>
      match x.tasks entry.id with
      | none => runReadyTasks n { x with taskQueue := rest } w
      | some task => do
        let r := poll task w
        let x ← pollTask { x with taskQueue := rest } entry.id task r.2
        let o ← runReadyTasks n x r.1
        some (o.1, o.2.1, task :: o.2.2)

/-- Each poll calls the waker of its task once when it returns `Pending`, and at most once when
it returns `Ready`. -/
def SelfWaking (ts : List Tasks.Task) : Prop :=
  ∀ t ∈ ts, ∀ w, ((poll t w).2.ready = false → (poll t w).2.wakes = 1) ∧ (poll t w).2.wakes ≤ 1

/-- Whether a poll has finished its task. -/
def finishes (t : Tasks.Task) (w : σ) : σ × Bool := ((poll t w).1, (poll t w).2.ready)

/-! ### More turns than needed -/

variable {poll} {k m n : ℕ} {x x' : Executor} {w w' : σ} {e t waker : Tasks.Task}
  {ts q q' rest trace : List Tasks.Task}

lemma run_succ {s : SimpleExecutor} {r : σ × List Tasks.Task} (h : s.run poll n w = some r) :
    s.run poll (n + 1) w = some r := by
  induction n generalizing s w r with
  | zero =>
    rcases hq : s.taskQueue with _ | ⟨t, rest⟩
    · simpa [SimpleExecutor.run, hq] using h
    · simp [SimpleExecutor.run, hq] at h
  | succ n ih =>
    rw [SimpleExecutor.run] at h ⊢
    rcases hq : s.taskQueue with _ | ⟨t, rest⟩
    · simpa [hq] using h
    · simp only [hq] at h ⊢
      obtain ⟨o, ho, rfl⟩ := Option.map_eq_some_iff.mp h
      rw [ih ho, Option.map_some]

lemma run_mono {s : SimpleExecutor} {r : σ × List Tasks.Task} (h : s.run poll n w = some r)
    (hle : n ≤ m) : s.run poll m w = some r := by
  induction m, hle using Nat.le_induction with
  | base => exact h
  | succ m _ ih => exact run_succ ih

lemma runReadyTasks_succ {r : Executor × σ × List Tasks.Task}
    (h : runReadyTasks poll n x w = some r) :
    runReadyTasks poll (n + 1) x w = some r := by
  induction n generalizing x w r with
  | zero =>
    rcases hq : x.taskQueue with _ | ⟨e, rest⟩
    · simpa [runReadyTasks, hq] using h
    · simp [runReadyTasks, hq] at h
  | succ n ih =>
    rw [runReadyTasks] at h ⊢
    rcases hq : x.taskQueue with _ | ⟨e, rest⟩
    · simpa [hq] using h
    · simp only [hq] at h ⊢
      rcases ht : x.tasks e.id with _ | t
      · simp only [ht] at h ⊢
        exact ih h
      · simp only [ht] at h ⊢
        obtain ⟨x₁, hx₁, h⟩ := Option.bind_eq_some_iff.mp h
        obtain ⟨o, ho, h⟩ := Option.bind_eq_some_iff.mp h
        rw [hx₁, Option.bind_eq_bind, Option.bind_some, ih ho]
        exact h

lemma runReadyTasks_mono {r : Executor × σ × List Tasks.Task}
    (h : runReadyTasks poll n x w = some r) (hle : n ≤ m) : runReadyTasks poll m x w = some r := by
  induction m, hle using Nat.le_induction with
  | base => exact h
  | succ m _ ih => exact runReadyTasks_succ ih

/-! ### The loop as events -/

lemma next_pop_nil {s : Sys} (hphase : s.phase = .loop) (hq : s.executor.taskQueue = []) :
    s.next .pop = some { s with phase := .outside } := by
  simp only [Sys.next, hphase, if_true, hq]

lemma next_pop_cons {s : Sys} (hphase : s.phase = .loop) (hq : s.executor.taskQueue = e :: rest) :
    s.next .pop = some
      { s with executor := { s.executor with taskQueue := rest }, phase := .popped e } := by
  simp only [Sys.next, hphase, if_true, hq]

lemma reach_wakes {s : Sys} (hw : waker ∈ s.wakers) (h : wakes s.executor waker k = some x') :
    ∃ s', Reach Sys.next (fun _ _ => True) s s' ∧ s'.executor = x' ∧ s'.phase = s.phase := by
  induction k generalizing s with
  | zero => exact ⟨s, .start, Option.some_inj.mp h, rfl⟩
  | succ k ih =>
    obtain ⟨x₁, hpush, h⟩ := Option.bind_eq_some_iff.mp h
    have hnext : s.next (.wake waker) = some
        { s with executor := x₁, notified := Function.update s.notified waker.serial true } := by
      rw [Sys.next, if_pos hw, hpush]
      rfl
    obtain ⟨s', hr, hx, hphase⟩ := ih (s := { s with
      executor := x₁, notified := Function.update s.notified waker.serial true }) hw h
    exact ⟨s', (Reach.step .start trivial hnext).trans hr, hx, hphase⟩

lemma reach_pollTask {s : Sys} {r : Polled} (hphase : s.phase = .popped e)
    (ht : s.executor.tasks e.id = some t) (h : pollTask s.executor e.id t r = some x') :
    ∃ s', Reach Sys.next (fun _ _ => True) s s' ∧ s'.executor = x' ∧ s'.phase = .loop := by
  have hlook : s.next .look = some
      { s with
        executor := s.executor.withWaker e.id t
        phase := .polling e t
        wakers := s.executor.wakerFor e.id t :: s.wakers
        notified := Function.update s.notified t.serial false } := by
    simp only [Sys.next, hphase, ht]
  obtain ⟨x₁, hwakes, rfl⟩ := Option.map_eq_some_iff.mp h
  obtain ⟨s₁, hr, rfl, hpoll⟩ := reach_wakes (s := { s with
    executor := s.executor.withWaker e.id t
    phase := .polling e t
    wakers := s.executor.wakerFor e.id t :: s.wakers
    notified := Function.update s.notified t.serial false }) List.mem_cons_self hwakes
  have hstart := (Reach.step .start trivial hlook).trans hr
  cases r.ready with
  | true =>
    have hnext : s₁.next .ready = some
        { s₁ with
          executor := s₁.executor.remove e.id
          phase := .loop
          finished := Function.update s₁.finished t.serial true } := by
      simp only [Sys.next, hpoll]
    exact ⟨_, hstart.step trivial hnext, rfl, rfl⟩
  | false =>
    have hnext : s₁.next .pending = some { s₁ with phase := .loop } := by
      simp only [Sys.next, hpoll]
    exact ⟨_, hstart.step trivial hnext, rfl, rfl⟩

/-- **A call of `run_ready_tasks` is a run of the executor's events.** -/
theorem reach_runReadyTasks {s : Sys} (hphase : s.phase = .loop)
    (h : runReadyTasks poll n s.executor w = some (x', w', trace)) :
    ∃ s', Reach Sys.next (fun _ _ => True) s s' ∧ s'.executor = x' ∧ s'.phase = .outside := by
  induction n generalizing s w trace with
  | zero =>
    rcases hq : s.executor.taskQueue with _ | ⟨e, rest⟩
    · simp only [runReadyTasks, hq, List.isEmpty_nil, if_true] at h
      obtain ⟨rfl, -⟩ := Prod.mk.inj (Option.some_inj.mp h)
      exact ⟨_, .step .start trivial (next_pop_nil hphase hq), rfl, rfl⟩
    · simp [runReadyTasks, hq] at h
  | succ n ih =>
    rw [runReadyTasks] at h
    rcases hq : s.executor.taskQueue with _ | ⟨e, rest⟩
    · simp only [hq] at h
      obtain ⟨rfl, -⟩ := Prod.mk.inj (Option.some_inj.mp h)
      exact ⟨_, .step .start trivial (next_pop_nil hphase hq), rfl, rfl⟩
    · simp only [hq] at h
      have hpop : Reach Sys.next (fun _ _ => True) s _ :=
        .step .start trivial (next_pop_cons hphase hq)
      rcases ht : s.executor.tasks e.id with _ | t
      · -- the id leads to no task: back to the head of the loop
        simp only [ht] at h
        have hlook : Sys.next
            { s with executor := { s.executor with taskQueue := rest }, phase := .popped e } .look =
            some { s with executor := { s.executor with taskQueue := rest }, phase := .loop } := by
          simp only [Sys.next, ht]
        obtain ⟨s', hr, hx, hout⟩ := ih (s := { s with
          executor := { s.executor with taskQueue := rest }, phase := .loop }) rfl h
        exact ⟨s', (hpop.step trivial hlook).trans hr, hx, hout⟩
      · simp only [ht] at h
        obtain ⟨x₁, hpoll, h⟩ := Option.bind_eq_some_iff.mp h
        obtain ⟨⟨x₂, w₂, polled⟩, ho, h⟩ := Option.bind_eq_some_iff.mp h
        simp only [Option.some_inj, Prod.mk.injEq] at h
        obtain ⟨rfl, rfl, -⟩ := h
        obtain ⟨s₁, hr₁, rfl, hloop⟩ := reach_pollTask (s := { s with
          executor := { s.executor with taskQueue := rest }, phase := .popped e }) rfl ht hpoll
        obtain ⟨s', hr, hx, hout⟩ := ih hloop ho
        exact ⟨s', (hpop.trans hr₁).trans hr, hx, hout⟩

/-! ### The two queues -/

/-- The ids in the queue. -/
def ids (x : Executor) : List UInt64 := x.taskQueue.map Task.id

/-- The id leads to a task. -/
def leads (x : Executor) (id : UInt64) : Bool := (x.tasks id).isSome

/-- The executor keeps the tasks of the simple executor's queue: the map holds them, the ids
that lead to a task stand in the same order, and no id stands in the queue twice. -/
structure Follows (ts : List Tasks.Task) (x : Executor) (q : List Tasks.Task) : Prop where
  tasks : ∀ id t, x.tasks id = some t ↔ t ∈ q ∧ t.id = id
  live : (ids x).filter (leads x) = q.map Task.id
  nodup : (ids x).Nodup
  known : ids x ⊆ ts.map Task.id
  cache : ∀ id waker, x.wakerCache id = some waker → waker.id = id ∧ leads x id

namespace Follows

lemma nodup_ids (h : Follows ts x q) : (q.map Task.id).Nodup := by
  rw [← h.live]
  exact h.nodup.filter _

lemma room (h : Follows ts x q) (hlen : ts.length ≤ 100)
    (hq : x.taskQueue = e :: rest) : rest.length < queueCapacity := by
  have hsub : (ids x).length ≤ (ts.map Task.id).length :=
    (h.nodup.subperm h.known).length_le
  rw [ids, hq, List.length_map, List.length_map, List.length_cons] at hsub
  exact hsub.trans hlen

lemma stale (h : Follows ts x q) (hq : x.taskQueue = e :: rest)
    (he : x.tasks e.id = none) : Follows ts { x with taskQueue := rest } q := by
  have hids : ids x = e.id :: rest.map Task.id := by rw [ids, hq, List.map_cons]
  have hlive := h.live
  have hnodup := h.nodup
  have hknown := h.known
  rw [hids] at hlive hnodup hknown
  rw [List.filter_cons_of_neg (by simp [leads, he])] at hlive
  exact ⟨h.tasks, hlive, (List.nodup_cons.mp hnodup).2,
    (List.cons_subset.mp hknown).2, h.cache⟩

lemma first (h : Follows ts x q) (hq : x.taskQueue = e :: rest)
    (he : x.tasks e.id = some t) : t.id = e.id ∧ ∃ q', q = t :: q' := by
  obtain ⟨hmem, hid⟩ := (h.tasks e.id t).mp he
  have hlive := h.live
  rw [ids, hq, List.map_cons, List.filter_cons_of_pos (by simp [leads, he])] at hlive
  refine ⟨hid, ?_⟩
  cases q with
  | nil => cases hmem
  | cons t' q' =>
    rw [List.map_cons] at hlive
    obtain ⟨hid', -⟩ := List.cons.inj hlive
    have ht : t = t' := List.inj_on_of_nodup_map h.nodup_ids hmem List.mem_cons_self
      (hid.trans hid')
    exact ⟨q', by rw [ht]⟩

lemma entries (h : Follows ts x q) (hq : x.taskQueue = e :: rest)
    (hk : k ≤ 1) : (rest.map Task.id ++ List.replicate k e.id).Nodup ∧
      rest.map Task.id ++ List.replicate k e.id ⊆ ts.map Task.id := by
  have hids : ids x = e.id :: rest.map Task.id := by rw [ids, hq, List.map_cons]
  have hnodup := h.nodup
  have hknown := h.known
  rw [hids] at hnodup hknown
  obtain ⟨hnot, hrest⟩ := List.nodup_cons.mp hnodup
  obtain ⟨he, hsub⟩ := List.cons_subset.mp hknown
  refine ⟨List.nodup_append.mpr ⟨hrest, List.nodup_replicate.mpr hk, ?_⟩,
    List.append_subset.mpr ⟨hsub, ?_⟩⟩
  · intro a ha b hb hab
    rw [List.eq_of_mem_replicate hb] at hab
    exact hnot (hab ▸ ha)
  · intro b hb
    rwa [List.eq_of_mem_replicate hb]

lemma wakerFor_id (h : Follows ts x q) (id : UInt64) (t : Tasks.Task) :
    (x.wakerFor id t).id = id := by
  unfold Executor.wakerFor
  rcases hc : x.wakerCache id with _ | waker
  · rfl
  · exact (h.cache id waker hc).1

end Follows

lemma wakes_eq (waker : Tasks.Task) (hk : k ≤ 1)
    (hroom : x.taskQueue.length < queueCapacity) :
    wakes x waker k = some { x with taskQueue := x.taskQueue ++ List.replicate k waker } := by
  interval_cases k
  · simp [wakes]
  · simp [wakes, Executor.push, hroom]

/-- The executor at the end of a poll, before the task is removed if it has finished. -/
def woken (x : Executor) (rest : List Tasks.Task) (waker : Tasks.Task) (k : ℕ) : Executor :=
  { x with
    taskQueue := rest ++ List.replicate k waker
    wakerCache := Function.update x.wakerCache waker.id (some waker) }

lemma woken_wakerCache :
    (woken x rest waker k).wakerCache = Function.update x.wakerCache waker.id (some waker) := rfl

lemma remove_wakerCache {id : UInt64} :
    (x.remove id).wakerCache = Function.update x.wakerCache id none := rfl

lemma ids_woken :
    ids (woken x rest waker k) = rest.map Task.id ++ List.replicate k waker.id := by
  rw [ids, woken, List.map_append, List.map_replicate]

namespace Follows

lemma pollTask_eq (h : Follows ts x q) (hlen : ts.length ≤ 100) (hq : x.taskQueue = e :: rest)
    (t : Tasks.Task) {r : Polled} (hk : r.wakes ≤ 1) :
    ∃ waker : Tasks.Task, waker.id = e.id ∧ pollTask { x with taskQueue := rest } e.id t r =
      some (if r.ready then (woken x rest waker r.wakes).remove e.id
        else woken x rest waker r.wakes) := by
  have hid : (x.wakerFor e.id t).id = e.id := h.wakerFor_id e.id t
  have hw := wakes_eq (x := Executor.withWaker { x with taskQueue := rest } e.id t)
    (x.wakerFor e.id t) hk (h.room hlen hq)
  refine ⟨x.wakerFor e.id t, hid, ?_⟩
  rw [pollTask]
  refine (congrArg (Option.map _) hw).trans ?_
  rw [Option.map_some, woken, hid]
  rfl

lemma behind (h : Follows ts x (t :: q')) (hq : x.taskQueue = e :: rest)
    (he : x.tasks e.id = some t) : e.id ∉ rest.map Task.id ∧
      (rest.map Task.id).filter (leads x) = q'.map Task.id := by
  have hids : ids x = e.id :: rest.map Task.id := by rw [ids, hq, List.map_cons]
  have hnodup := h.nodup
  have hlive := h.live
  rw [hids] at hnodup hlive
  rw [List.filter_cons_of_pos (by rw [leads, he]; rfl), List.map_cons] at hlive
  exact ⟨(List.nodup_cons.mp hnodup).1, (List.cons.inj hlive).2⟩

lemma pending (h : Follows ts x (t :: q')) (hq : x.taskQueue = e :: rest)
    (he : x.tasks e.id = some t) (hw : waker.id = e.id) :
    Follows ts (woken x rest waker 1) (q' ++ [t]) := by
  obtain ⟨-, hid⟩ := (h.tasks e.id t).mp he
  obtain ⟨hnodup, hknown⟩ := h.entries hq (le_refl 1)
  have hids : ids (woken x rest waker 1) = rest.map Task.id ++ List.replicate 1 e.id := by
    rw [ids_woken, hw]
  refine ⟨fun id t' => ?_, ?_, hids ▸ hnodup, hids ▸ hknown, fun id waker' hc => ?_⟩
  · rw [List.mem_append, List.mem_singleton, or_comm, ← List.mem_cons]
    exact h.tasks id t'
  · -- the id that led to the first task now leads to the last
    rw [hids, List.filter_append, List.map_append, List.replicate_one, List.map_singleton, hid]
    refine congrArg₂ (· ++ ·) (h.behind hq he).2 ?_
    exact List.filter_cons_of_pos (by rw [leads, woken, he]; rfl)
  · by_cases hide : id = e.id
    · subst hide
      rw [woken_wakerCache, hw, Function.update_self] at hc
      obtain rfl := Option.some_inj.mp hc
      exact ⟨hw, by rw [leads, woken, he]; rfl⟩
    · rw [woken_wakerCache, hw, Function.update_of_ne hide] at hc
      exact h.cache id waker' hc

/-- A poll that returns `Ready`: the task is gone, and an id left by a last wake leads nowhere. -/
lemma ready (h : Follows ts x (t :: q')) (hq : x.taskQueue = e :: rest)
    (he : x.tasks e.id = some t) (hw : waker.id = e.id) (hk : k ≤ 1) :
    Follows ts ((woken x rest waker k).remove e.id) q' := by
  obtain ⟨-, hid⟩ := (h.tasks e.id t).mp he
  obtain ⟨hnodup, hknown⟩ := h.entries hq hk
  have hids : ids ((woken x rest waker k).remove e.id) =
      rest.map Task.id ++ List.replicate k e.id := by
    rw [← hw]
    exact ids_woken (x := x)
  have hgone : e.id ∉ q'.map Task.id := by
    have hnd := h.nodup_ids
    rw [List.map_cons, hid] at hnd
    exact (List.nodup_cons.mp hnd).1
  have hother : ∀ id, id ≠ e.id →
      ((woken x rest waker k).remove e.id).tasks id = x.tasks id := fun id hne =>
    Function.update_of_ne hne _ _
  have hself : ((woken x rest waker k).remove e.id).tasks e.id = none := Function.update_self _ _ _
  refine ⟨fun id t' => ?_, ?_, hids ▸ hnodup, hids ▸ hknown, fun id waker' hc => ?_⟩
  · by_cases hide : id = e.id
    · subst hide
      rw [hself]
      refine iff_of_false (by simp) ?_
      rintro ⟨hmem, hid'⟩
      exact hgone (hid' ▸ List.mem_map_of_mem hmem)
    · rw [hother id hide, h.tasks, List.mem_cons]
      refine and_congr_left fun hid' => or_iff_right ?_
      rintro rfl
      exact hide (hid'.symm.trans hid)
  · obtain ⟨hnot, hrest⟩ := h.behind hq he
    -- the ids behind the popped one lead where they led
    have hsame : (rest.map Task.id).filter (leads ((woken x rest waker k).remove e.id)) =
        (rest.map Task.id).filter (leads x) := by
      refine List.filter_congr fun id hmem => ?_
      rw [leads, leads, hother id fun he => hnot (he ▸ hmem)]
    have hstale :
        (List.replicate k e.id).filter (leads ((woken x rest waker k).remove e.id)) = [] := by
      refine List.filter_eq_nil_iff.mpr fun id hmem => ?_
      rw [List.eq_of_mem_replicate hmem, leads, hself]
      simp
    rw [hids, List.filter_append, hsame, hstale, List.append_nil, hrest]
  · by_cases hide : id = e.id
    · subst hide
      rw [remove_wakerCache, Function.update_self] at hc
      cases hc
    · rw [remove_wakerCache, Function.update_of_ne hide, woken_wakerCache, hw,
        Function.update_of_ne hide] at hc
      obtain ⟨hwid, hlead⟩ := h.cache id waker' hc
      exact ⟨hwid, by rw [leads, hother id hide]; exact hlead⟩

end Follows

/-! ### Spawning -/

/-- The executor with the tasks spawned and nothing polled. -/
def spawned (q : List Tasks.Task) : Executor :=
  ⟨fun id => q.find? fun t => t.id = id, q, fun _ => none⟩

lemma spawn_spawned (hnew : t.id ∉ q.map Task.id) (hlen : q.length < queueCapacity) :
    (spawned q).spawn t = some (spawned (q ++ [t])) := by
  have hnone : (spawned q).tasks t.id = none := by
    refine List.find?_eq_none.mpr fun t' ht' => ?_
    rw [decide_eq_true_eq]
    exact fun hid => hnew (hid ▸ List.mem_map_of_mem ht')
  have hmap : Function.update (spawned q).tasks t.id (some t) = (spawned (q ++ [t])).tasks := by
    funext id
    by_cases hid : id = t.id
    · subst hid
      have hfind : q.find? (fun t' => t'.id = t.id) = none := hnone
      simp [spawned, List.find?_append, hfind]
    · have hfind : [t].find? (fun t' => t'.id = id) = none := by simp [Ne.symm hid]
      rw [Function.update_of_ne hid]
      simp only [spawned, List.find?_append, hfind, Option.or_none]
  rw [Executor.spawn, hnone, if_neg (by simp), hmap]
  exact if_pos hlen

lemma foldlM_spawn {l : List Tasks.Task} (hlen : (q ++ l).length ≤ 100)
    (hids : ((q ++ l).map Task.id).Nodup) :
    l.foldlM Executor.spawn (spawned q) = some (spawned (q ++ l)) := by
  induction l generalizing q with
  | nil => rw [List.append_nil]; rfl
  | cons t l ih =>
    have hnew : t.id ∉ q.map Task.id := by
      rw [List.map_append, List.map_cons] at hids
      exact fun hmem => (List.nodup_append.mp hids).2.2 _ hmem _ List.mem_cons_self rfl
    have hroom : q.length < queueCapacity := by
      rw [List.length_append, List.length_cons] at hlen
      unfold queueCapacity
      omega
    rw [List.append_cons] at hlen hids ⊢
    rw [List.foldlM_cons, spawn_spawned hnew hroom]
    exact ih hlen hids

lemma follows_spawned (hids : (ts.map Task.id).Nodup) : Follows ts (spawned ts) ts := by
  refine ⟨fun id t => ⟨fun h => ?_, ?_⟩, ?_, hids, fun _ h => h, fun _ _ hc => by cases hc⟩
  · have hid := List.find?_some h
    exact ⟨List.mem_of_find?_eq_some h, by simpa using hid⟩
  · rintro ⟨hmem, rfl⟩
    obtain ⟨t', ht'⟩ := Option.isSome_iff_exists.mp
      (List.find?_isSome.mpr ⟨t, hmem, decide_eq_true rfl⟩ :
        (ts.find? fun t' => t'.id = t.id).isSome)
    have hid : t'.id = t.id := by simpa using List.find?_some ht'
    have he := List.inj_on_of_nodup_map hids (List.mem_of_find?_eq_some ht') hmem hid
    rwa [he] at ht'
  · refine List.filter_eq_self.mpr fun id hid => ?_
    obtain ⟨t, ht, rfl⟩ := List.mem_map.mp hid
    exact List.find?_isSome.mpr ⟨t, ht, decide_eq_true rfl⟩

/-! ### Whole runs -/

lemma run_nil : SimpleExecutor.run poll n ⟨[]⟩ w = some (w, []) := by
  cases n <;> rfl

variable (poll) in
lemma Follows.drain (h : Follows ts x q) :
    ∃ n x₀, (∀ m w, runReadyTasks poll (m + n) x w = runReadyTasks poll m x₀ w) ∧
      Follows ts x₀ q ∧ (x₀.taskQueue = [] ∨
        ∃ e rest t, x₀.taskQueue = e :: rest ∧ x₀.tasks e.id = some t) := by
  induction hq : x.taskQueue generalizing x with
  | nil => exact ⟨0, x, fun _ _ => rfl, h, .inl hq⟩
  | cons e rest ih =>
    rcases he : x.tasks e.id with _ | t
    · obtain ⟨n, x₀, hrun, hrest⟩ := ih (h.stale hq he) rfl
      refine ⟨n + 1, x₀, fun m w => ?_, hrest⟩
      rw [← hrun, ← Nat.add_assoc, runReadyTasks, hq]
      simp only [he]
    · exact ⟨0, x, fun _ _ => rfl, h, .inr ⟨e, rest, t, hq, he⟩⟩

lemma Follows.ends (h : Follows ts x [])
    (hrun : SimpleExecutor.run poll k ⟨[]⟩ w = some (w', trace)) :
    ∃ m x', x'.taskQueue = [] ∧ Follows ts x' [] ∧
      runReadyTasks poll m x w = some (x', w', trace) := by
  rw [run_nil] at hrun
  obtain ⟨rfl, rfl⟩ := Prod.mk.inj (Option.some_inj.mp hrun)
  obtain ⟨n, x₀, hdrain, h₀, hempty | ⟨e, rest, t, hq, he⟩⟩ := h.drain poll
  · refine ⟨0 + n, x₀, hempty, h₀, ?_⟩
    rw [hdrain, runReadyTasks, hempty]
    rfl
  · obtain ⟨-, q', hq'⟩ := h₀.first hq he
    cases hq'

lemma Follows.turn (h : Follows ts x (t :: q')) (hlen : ts.length ≤ 100)
    (hq : x.taskQueue = e :: rest) (he : x.tasks e.id = some t)
    {r : Polled} (hpending : r.ready = false → r.wakes = 1) (hk : r.wakes ≤ 1) :
    ∃ x', pollTask { x with taskQueue := rest } e.id t r = some x' ∧
      Follows ts x' (if r.ready then q' else q' ++ [t]) := by
  obtain ⟨waker, hw, hpoll⟩ := h.pollTask_eq hlen hq t hk
  refine ⟨_, hpoll, ?_⟩
  cases hr : r.ready with
  | true => exact h.ready hq he hw hk
  | false =>
    rw [hpending hr]
    exact h.pending hq he hw

/-- **The executor with wakers polls what the simple one polls.** -/
theorem Follows.run (h : Follows ts x q) (hlen : ts.length ≤ 100) (hwake : SelfWaking poll ts)
    (hsub : q ⊆ ts) (hrun : SimpleExecutor.run poll n ⟨q⟩ w = some (w', trace)) :
    ∃ m x', x'.taskQueue = [] ∧ Follows ts x' [] ∧
      runReadyTasks poll m x w = some (x', w', trace) := by
  induction n generalizing x q w trace with
  | zero =>
    cases q with
    | nil => exact h.ends hrun
    | cons t q' => cases hrun
  | succ n ih =>
    cases q with
    | nil => exact h.ends hrun
    | cons t q' =>
      obtain ⟨⟨w₁, tr⟩, hrest, hout⟩ := Option.map_eq_some_iff.mp hrun
      obtain ⟨rfl, rfl⟩ := Prod.mk.inj hout
      obtain ⟨ht, hq'⟩ := List.cons_subset.mp hsub
      obtain ⟨hpending, hk⟩ := hwake t ht w
      obtain ⟨k, x₀, hdrain, h₀, hempty | ⟨e, rest, t₀, hq, he⟩⟩ := h.drain poll
      · -- some id leads to the first task
        have hlive := h₀.live
        rw [ids, hempty] at hlive
        cases hlive
      · obtain ⟨-, q₀, hfirst⟩ := h₀.first hq he
        obtain ⟨rfl, rfl⟩ := List.cons.inj hfirst
        obtain ⟨x₁, hpoll, h₁⟩ := h₀.turn hlen hq he hpending hk
        have hsub' : (if (poll t w).2.ready then q' else q' ++ [t]) ⊆ ts := by
          split_ifs
          · exact hq'
          · exact List.append_subset.mpr ⟨hq', List.cons_subset.mpr ⟨ht, List.nil_subset _⟩⟩
        obtain ⟨m, x', hempty, h', hm⟩ := ih h₁ hsub' hrest
        refine ⟨m + 1 + k, x', hempty, h', ?_⟩
        rw [hdrain, runReadyTasks, hq]
        simp only [he, hpoll, hm, Option.bind_eq_bind, Option.bind_some]

lemma exists_run (h : ((Rotation.turn (finishes poll))^[n] (q, w)).1 = []) :
    ∃ r, SimpleExecutor.run poll n ⟨q⟩ w = some r := by
  induction n generalizing q w with
  | zero =>
    obtain rfl : q = [] := h
    exact ⟨_, rfl⟩
  | succ n ih =>
    rw [Function.iterate_succ_apply] at h
    cases q with
    | nil => exact ⟨_, run_nil⟩
    | cons t q' =>
      obtain ⟨r, hr⟩ := ih h
      exact ⟨_, Option.map_eq_some_iff.mpr ⟨r, hr, rfl⟩⟩

lemma foldl_spawn (s : SimpleExecutor) (ts : List Tasks.Task) :
    ts.foldl SimpleExecutor.spawn s = ⟨s.taskQueue ++ ts⟩ := by
  induction ts generalizing s with
  | nil => rw [List.append_nil]; rfl
  | cons t ts ih => rw [List.foldl_cons, ih, SimpleExecutor.spawn, ← List.append_cons]

/-- **The two executors agree on tasks that wake themselves.** For at most 100 tasks with
different ids, each of which wakes itself as described and finishes after finitely many polls
whenever the unfinished ones are polled again and again: the pushes of `spawn` succeed, both
loops end, they have polled the same tasks in the same order, and the executor is then empty. -/
theorem executors_agree (ts : List Tasks.Task) (w : σ) (hlen : ts.length ≤ 100)
    (hids : (ts.map Task.id).Nodup) (hwake : SelfWaking poll ts)
    (hfin : Rotation.Finishes (finishes poll) ts w) :
    ∃ x x' w' trace, ts.foldlM Executor.spawn .new = some x ∧
      (∃ n, ∀ m ≥ n, (ts.foldl SimpleExecutor.spawn .new).run poll m w = some (w', trace)) ∧
      (∃ n, ∀ m ≥ n, runReadyTasks poll m x w = some (x', w', trace)) ∧
      (∀ id, x'.tasks id = none) ∧ (∀ id, x'.wakerCache id = none) ∧ x'.taskQueue = [] := by
  have hspawn : ts.foldlM Executor.spawn .new = some (spawned ts) :=
    foldlM_spawn (q := []) hlen hids
  obtain ⟨n, hn⟩ := Rotation.exists_empty (hids.of_map) hfin
  obtain ⟨⟨w', trace⟩, hrun⟩ := exists_run hn
  obtain ⟨m, x', hempty, h', hm⟩ := (follows_spawned hids).run hlen hwake (List.Subset.refl ts) hrun
  have hnone : ∀ id, x'.tasks id = none := by
    intro id
    rw [Option.eq_none_iff_forall_ne_some]
    intro t ht
    cases ((h'.tasks id t).mp ht).1
  refine ⟨_, x', w', trace, hspawn, ⟨n, fun k hk => ?_⟩, ⟨m, fun k hk => ?_⟩, hnone, ?_, hempty⟩
  · rw [foldl_spawn]
    exact run_mono hrun hk
  · exact runReadyTasks_mono hm hk
  · intro id
    rw [Option.eq_none_iff_forall_ne_some]
    intro waker hc
    have hlead := (h'.cache id waker hc).2
    rw [leads, hnone id] at hlead
    cases hlead

/-- A number that every poll counts down, with a last wake at zero. -/
def countdown (_ : Tasks.Task) (w : ℕ) : ℕ × Polled := (w - 1, ⟨w = 0, 1⟩)

lemma selfWaking_countdown : SelfWaking countdown ts := fun _ _ _ => ⟨fun _ => rfl, le_refl 1⟩

lemma finishes_countdown {w : ℕ} : Rotation.Finishes (finishes countdown) ts w := by
  refine Rotation.finishes_of_rank (fun _ w => w) (fun t w hw => ?_) fun _ _ w _ => Nat.sub_le w 1
  have hne : w ≠ 0 := by simpa [finishes, countdown] using hw
  exact Nat.sub_lt (Nat.pos_of_ne_zero hne) Nat.one_pos

/-- Two tasks that count down from 3: the first is polled three times, the second twice. -/
theorem executors_agree_countdown : ∃ x x' w' trace,
    [⟨0, 0⟩, ⟨1, 1⟩].foldlM Executor.spawn .new = some x ∧
      (∃ n, runReadyTasks countdown n x 3 = some (x', w', trace)) ∧ x'.taskQueue = [] ∧
      trace = [⟨0, 0⟩, ⟨1, 1⟩, ⟨0, 0⟩, ⟨1, 1⟩, ⟨0, 0⟩] := by
  obtain ⟨x, x', w', trace, hspawn, ⟨n, hsimple⟩, ⟨m, hrun⟩, -, -, hempty⟩ :=
    executors_agree [⟨0, 0⟩, ⟨1, 1⟩] 3 (by decide) (by decide) selfWaking_countdown
      finishes_countdown
  have hfive : (SimpleExecutor.mk [⟨0, 0⟩, ⟨1, 1⟩]).run countdown 5 3 =
      some (0, [⟨0, 0⟩, ⟨1, 1⟩, ⟨0, 0⟩, ⟨1, 1⟩, ⟨0, 0⟩]) := by decide
  have hboth := (hsimple (max n 5) (le_max_left n 5)).symm.trans
    (run_mono hfive (le_max_right n 5))
  obtain ⟨-, rfl⟩ := Prod.mk.inj (Option.some_inj.mp hboth)
  exact ⟨x, x', w', _, hspawn, ⟨m, hrun m (le_refl m)⟩, hempty, rfl⟩

end RustyOs.Executors
