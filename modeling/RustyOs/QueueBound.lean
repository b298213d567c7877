import RustyOs.TaskQueue

/-!
Whether the ready queue can overflow.

The queue has room for a hundred entries, and nothing keeps a task from having many. A push
cannot fail as long as every task has at most one entry and only live tasks are woken: tasks are
spawned outside `run_ready_tasks` only, which returns when the queue is empty, so the entries
always belong to the tasks that were live when it was called.
-/

namespace RustyOs.QueueBound

open RustyOs.Tasks RustyOs.TaskQueue RustyOs.TaskRuns RustyOs.Machine

variable {s s' : Sys} {t w : Tasks.Task} {e : Event}

/-- The ids of the tasks the executor holds. -/
def liveIds (s : Sys) : Set UInt64 := {id | (s.executor.tasks id).isSome}

noncomputable def liveCount (s : Sys) : ℕ := (liveIds s).ncard

/-- At most a hundred tasks are live at any time. -/
def Bounded (s : Sys) : Event → Prop
  | .spawn _ => liveCount s < 100
  | _ => True

/-- Moreover, a waker is only called while its task is live and has no entry. -/
def Polite (s : Sys) : Event → Prop
  | .wake w => w.id ∈ liveIds s ∧ w.id ∉ s.executor.taskQueue.map Task.id
  | e => Bounded s e

/-- No two entries have one id, and all ids are from a set of a hundred that has all live ones,
and only these outside `run_ready_tasks`. -/
structure Room (ids : Set UInt64) (s : Sys) : Prop where
  card : ids.ncard ≤ 100
  live : liveIds s ⊆ ids
  outside : s.phase = .outside → ids = liveIds s
  entry : ∀ id ∈ s.executor.taskQueue.map Task.id, id ∈ ids
  nodup : (s.executor.taskQueue.map Task.id).Nodup

variable {ids : Set UInt64}

/-- The ids of the entries, as a set. -/
def entryIds (s : Sys) : Set UInt64 := {id | id ∈ s.executor.taskQueue.map Task.id}

lemma Room.ncard_entryIds (h : Room ids s) :
    (entryIds s).ncard = s.executor.taskQueue.length := by
  classical
  have hcoe : entryIds s = ((s.executor.taskQueue.map Task.id).toFinset : Set UInt64) := by
    ext id
    simp [entryIds]
  rw [hcoe, Set.ncard_coe_finset, List.toFinset_card_of_nodup h.nodup, List.length_map]

lemma Room.length_le (h : Room ids s) : s.executor.taskQueue.length ≤ ids.ncard := by
  rw [← h.ncard_entryIds]
  exact Set.ncard_le_ncard h.entry (Set.toFinite _)

lemma Room.length_lt (h : Room ids s) {id : UInt64} (hid : id ∈ ids)
    (hno : id ∉ s.executor.taskQueue.map Task.id) :
    s.executor.taskQueue.length < queueCapacity := by
  have hlt : (entryIds s).ncard < ids.ncard :=
    Set.ncard_lt_ncard ⟨h.entry, fun hsub => hno (hsub hid)⟩ (Set.toFinite _)
  rw [h.ncard_entryIds] at hlt
  exact hlt.trans_le h.card

lemma Room.push (h : Room ids s) (hid : w.id ∈ ids)
    (hno : w.id ∉ s.executor.taskQueue.map Task.id) (notified : ℕ → Bool) :
    Room ids { s with
      executor := { s.executor with taskQueue := s.executor.taskQueue ++ [w] }
      notified := notified } where
  card := h.card
  live := h.live
  outside := h.outside
  entry := by
    intro id hmem
    rw [List.map_append, List.mem_append] at hmem
    rcases hmem with hmem | hmem
    · exact h.entry id hmem
    · rw [List.mem_singleton.mp hmem]
      exact hid
  nodup := by
    rw [List.map_append]
    exact h.nodup.append (List.nodup_singleton _) (by simpa using hno)

lemma liveIds_update (tasks : UInt64 → Option Task) (t : Task) :
    {id | (Function.update tasks t.id (some t) id).isSome} =
      insert t.id {id | (tasks id).isSome} := by
  ext id
  by_cases hid : id = t.id
  · simp [hid]
  · simp [hid]

lemma Room.spawn (h : Room ids s) (hok : Bounded s (.spawn t))
    (hs : s.next (.spawn t) = some s') : ∃ ids', Room ids' s' := by
  cases step_of_next hs
  case spawn hp hm hnone =>
  obtain rfl := h.outside hp
  have hnew : t.id ∉ liveIds s := by simp [liveIds, hnone]
  have hcard : (insert t.id (liveIds s)).ncard ≤ 100 := by
    have hle := Set.ncard_insert_le t.id (liveIds s)
    have hlt : (liveIds s).ncard < 100 := hok
    omega
  -- the task joins the set, then its id the queue
  have hroom : Room (insert t.id (liveIds s)) { s with
      executor := { s.executor with tasks := Function.update s.executor.tasks t.id (some t) } } :=
    { card := hcard
      live := (liveIds_update _ t).subset
      outside := fun _ => (liveIds_update _ t).symm
      entry := fun id hid => .inr (h.entry id hid)
      nodup := h.nodup }
  have hpush := hroom.push (w := t) (.inl rfl) (fun hmem => hnew (h.entry _ hmem)) s.notified
  exact ⟨_, ⟨hpush.card, hpush.live, hpush.outside, hpush.entry, hpush.nodup⟩⟩

lemma Room.pop (h : Room ids s) (hs : s.next .pop = some s') : ∃ ids', Room ids' s' := by
  cases step_of_next hs with
  | leave hp hq =>
    -- the queue is empty: the ids of ended tasks can go
    have hle := Set.ncard_le_ncard h.live (Set.toFinite _)
    exact ⟨liveIds s, hle.trans h.card, subset_rfl, fun _ => rfl, by simp [hq], by simp [hq]⟩
  | pop hp hq =>
    have hentry := h.entry
    have hnodup := h.nodup
    rw [hq, List.map_cons] at hentry hnodup
    exact ⟨ids, h.card, h.live, by simp, fun id hid => hentry id (List.mem_cons_of_mem _ hid),
      (List.nodup_cons.mp hnodup).2⟩

lemma Room.look (h : Room ids s) (hs : s.next .look = some s') : Room ids s' := by
  cases step_of_next hs with
  | stale => exact ⟨h.card, h.live, by simp, h.entry, h.nodup⟩
  | look => exact ⟨h.card, h.live, by simp, h.entry, h.nodup⟩

lemma Room.ready (h : Room ids s) (hs : s.next .ready = some s') : Room ids s' := by
  cases step_of_next hs
  refine ⟨h.card, fun id hid => h.live ?_, by simp, h.entry, h.nodup⟩
  obtain ⟨u, hu⟩ := Option.isSome_iff_exists.mp hid
  have hu := ((update_eq_some hu).resolve_left (by simp)).2
  simp [liveIds, hu]

lemma Room.next (h : Room ids s) (hok : Polite s e) (hs : s.next e = some s') :
    ∃ ids', Room ids' s' := by
  cases e with
  | create =>
    cases step_of_next hs
    exact ⟨ids, h.card, h.live, h.outside, h.entry, h.nodup⟩
  | spawn t => exact h.spawn hok hs
  | enter =>
    cases step_of_next hs
    exact ⟨ids, h.card, h.live, by simp, h.entry, h.nodup⟩
  | pop => exact h.pop hs
  | look => exact ⟨ids, h.look hs⟩
  | ready => exact ⟨ids, h.ready hs⟩
  | pending =>
    cases step_of_next hs
    exact ⟨ids, h.card, h.live, by simp, h.entry, h.nodup⟩
  | wake w =>
    obtain rfl := wakeTask_eq_some (next_wake hs).2
    exact ⟨ids, h.push (h.live hok.1) hok.2 _⟩

lemma room_of_reach (h : Reach Sys.next Polite .initial s) : ∃ ids, Room ids s := by
  refine h.inv (I := fun s => ∃ ids, Room ids s) ⟨∅, ?_⟩
    fun s e s' ⟨ids, hi⟩ hok hs => hi.next hok hs
  have hnone : liveIds .initial = ∅ := by simp [liveIds, Sys.initial, Executor.new]
  exact ⟨by simp, hnone.subset, fun _ => hnone.symm, by simp [Sys.initial, Executor.new],
    by simp [Sys.initial, Executor.new]⟩

/-- **The queue does not overflow** in a run with at most a hundred live tasks in which wakers
are only called for live tasks that have no entry: every wake and every spawn of a new task
finds room in the queue. -/
theorem push_never_fails (h : Reach Sys.next Polite .initial s) :
    (∀ w ∈ s.wakers, Polite s (.wake w) → ∃ s', s.next (.wake w) = some s') ∧
      ∀ t ∈ s.unspawned, s.phase = .outside → s.executor.tasks t.id = none →
        Polite s (.spawn t) → ∃ s', s.next (.spawn t) = some s' := by
  obtain ⟨ids, hroom⟩ := room_of_reach h
  refine ⟨fun w hw hok => ?_, fun t ht hout hnone hok => ?_⟩
  · have hlt := hroom.length_lt (hroom.live hok.1) hok.2
    simp [Sys.next, hw, Executor.push, hlt]
  · have hlt : s.executor.taskQueue.length < queueCapacity := by
      have hle := hroom.length_le
      rw [hroom.outside hout] at hle
      exact hle.trans_lt hok
    simp [Sys.next, hout, ht, Executor.spawn, hnone, Executor.push, hlt]

lemma liveCount_initial : liveCount .initial < 100 := by
  simp [liveCount, liveIds, Sys.initial, Executor.new]

lemma reach_firstPoll : Reach Sys.next Polite .initial firstPoll := by
  have h : Reach Sys.next Polite .initial _ := .start
  have h := Reach.step (e := Event.create) h trivial rfl
  have h := Reach.step (e := Event.spawn (task 0)) h liveCount_initial rfl
  have h := Reach.step (e := Event.enter) h trivial rfl
  have h := Reach.step (e := Event.pop) h trivial rfl
  have h := Reach.step (e := Event.look) h trivial rfl
  exact h

lemma Polite.bounded (s : Sys) (e : Event) (h : Polite s e) : Bounded s e := by
  cases e with
  | wake w => trivial
  | _ => exact h

/-- Two tasks wait, the first has been woken, and the second is. -/
theorem push_never_fails_second : ∃ s s', Reach Sys.next Polite .initial s ∧
    s.executor.taskQueue = [task 0] ∧ s.next (.wake (task 1)) = some s' := by
  have h : Reach Sys.next Polite .initial _ := .start
  have h := Reach.step (e := Event.create) h trivial rfl
  have h := Reach.step (e := Event.create) h trivial rfl
  have h := Reach.step (e := Event.spawn (task 0)) h liveCount_initial rfl
  have hone : {id | (Function.update (fun _ => none) (task 0).id (some (task 0)) id).isSome}.ncard
      < 100 := by
    rw [liveIds_update]
    simp
  have h := Reach.step (e := Event.spawn (task 1)) h hone rfl
  have h := Reach.step (e := Event.enter) h trivial rfl
  have h := Reach.step (e := Event.pop) h trivial rfl
  have h := Reach.step (e := Event.look) h trivial rfl
  have h := Reach.step (e := Event.pending) h trivial rfl
  have h := Reach.step (e := Event.pop) h trivial rfl
  have h := Reach.step (e := Event.look) h trivial rfl
  have h := Reach.step (e := Event.pending) h trivial rfl
  have h := Reach.step (e := Event.wake (task 0)) h ⟨rfl, List.not_mem_nil⟩ rfl
  obtain ⟨s', hs'⟩ := (push_never_fails h).1 (task 1) (by decide) ⟨rfl, by decide⟩
  exact ⟨_, s', h, rfl, hs'⟩

/-! ### How it overflows -/

lemma exists_woken (n : ℕ) (hn : n ≤ 100) : ∃ s, Reach Sys.next Bounded .initial s ∧
    task 0 ∈ s.wakers ∧ s.executor.taskQueue.length = n ∧ liveIds s = {(task 0).id} := by
  induction n with
  | zero =>
    refine ⟨firstPoll, reach_firstPoll.mono Polite.bounded, List.mem_singleton.mpr rfl, rfl, ?_⟩
    refine (liveIds_update (fun _ => none) (task 0)).trans ?_
    simp
  | succ n ih =>
    obtain ⟨s, h, hw, hq, hl⟩ := ih (by omega)
    have hlt : s.executor.taskQueue.length < queueCapacity := by
      rw [hq, queueCapacity]
      omega
    have h' := Reach.step (e := Event.wake (task 0)) h trivial
      (by simp [Sys.next, hw, Executor.push, hlt]; rfl)
    exact ⟨_, h', hw, by simp [hq], hl⟩

lemma ofNat_inj_of_le {m n : ℕ} (hm : m ≤ 100) (hn : n ≤ 100)
    (h : UInt64.ofNat m = UInt64.ofNat n) : m = n := by
  have hnat := congrArg UInt64.toNat h
  simp only [UInt64.toNat_ofNat'] at hnat
  omega

/-- A task has ended and `n` others have been spawned; its waker is still about. -/
structure Spawned (n : ℕ) (s : Sys) : Prop where
  reach : Reach Sys.next Bounded .initial s
  waker : task 0 ∈ s.wakers
  queue : s.executor.taskQueue.map Task.id = (List.range n).map fun i => (task (i + 1)).id
  live : liveCount s ≤ n
  outside : s.phase = .outside
  created : s.created = n + 1
  fresh : ∀ m, n < m → m ≤ 100 → s.executor.tasks (task m).id = none

lemma Spawned.length {n : ℕ} (h : Spawned n s) : s.executor.taskQueue.length = n := by
  have hlen := congrArg List.length h.queue
  simpa using hlen

lemma exists_spawned_zero : ∃ s, Spawned 0 s := by
  have h := Reach.step (e := Event.ready) (reach_firstPoll.mono Polite.bounded) trivial rfl
  have h := Reach.step (e := Event.pop) h trivial rfl
  have hnone : ∀ id, Function.update (Function.update (fun _ => none) (task 0).id
      (some (task 0))) (task 0).id (none : Option Task) id = none := by
    intro id
    simp [Function.update_apply]
  have hempty : {id | (Function.update (Function.update (fun _ => none) (task 0).id
      (some (task 0))) (task 0).id (none : Option Task) id).isSome} = (∅ : Set UInt64) := by
    simp only [hnone, Option.isSome_none, Bool.false_eq_true, Set.ofPred_false]
  have hlive := (congrArg Set.ncard hempty).le.trans (by simp : (∅ : Set UInt64).ncard ≤ 0)
  exact ⟨_, h, List.mem_singleton.mpr rfl, rfl, hlive, rfl, rfl, fun m _ _ => hnone _⟩

lemma Spawned.succ {n : ℕ} (h : Spawned n s) (hn : n + 1 ≤ 100) : ∃ s', Spawned (n + 1) s' := by
  have hlen : s.executor.taskQueue.length < queueCapacity := by
    rw [h.length, queueCapacity]
    omega
  have hnew := h.fresh (n + 1) (by omega) hn
  have h₁ : Reach Sys.next Bounded .initial
      { s with created := s.created + 1, unspawned := task s.created :: s.unspawned } :=
    h.reach.step (e := Event.create) trivial rfl
  rw [h.created] at h₁
  have h₂ := Reach.step (e := Event.spawn (task (n + 1))) h₁ (h.live.trans_lt (by omega))
    (by simp [Sys.next, h.outside, Executor.spawn, hnew, Executor.push, hlen]; rfl)
  refine ⟨_, h₂, h.waker, ?_, ?_, rfl, rfl, fun m hm hm' => ?_⟩
  · simp [h.queue, List.range_succ]
  · refine (congrArg Set.ncard (liveIds_update s.executor.tasks (task (n + 1)))).le.trans ?_
    have hle := Set.ncard_insert_le (task (n + 1)).id (liveIds s)
    have hl : (liveIds s).ncard ≤ n := h.live
    exact hle.trans (by omega)
  · refine (Function.update_of_ne (fun hid => ?_) _ _).trans (h.fresh m (by omega) hm')
    have := ofNat_inj_of_le hm' hn hid
    omega

lemma exists_spawned (n : ℕ) (hn : n ≤ 100) : ∃ s, Spawned n s := by
  induction n with
  | zero => exact exists_spawned_zero
  | succ n ih =>
    obtain ⟨s, h⟩ := ih (by omega)
    exact h.succ hn

/-- With one live task, its wake panics when a hundred have gone before; and with a hundred live
tasks, so does the wake of one that has ended. -/
theorem wakes_overflow : (∃ s, Reach Sys.next Bounded .initial s ∧ liveCount s = 1 ∧
      ∃ w ∈ s.wakers, w.id ∈ liveIds s ∧ s.next (.wake w) = none) ∧
    ∃ s, Reach Sys.next Bounded .initial s ∧ liveCount s ≤ 100 ∧
      ∃ w ∈ s.wakers, w.id ∉ s.executor.taskQueue.map Task.id ∧ s.next (.wake w) = none := by
  constructor
  · obtain ⟨s, h, hw, hq, hl⟩ := exists_woken 100 (le_refl _)
    refine ⟨s, h, by simp [liveCount, hl], task 0, hw, by simp [hl], ?_⟩
    simp [Sys.next, hw, Executor.push, hq, queueCapacity]
  · obtain ⟨s, h⟩ := exists_spawned 100 (le_refl _)
    refine ⟨s, h.reach, h.live, task 0, h.waker, fun hmem => ?_, ?_⟩
    · rw [h.queue, List.mem_map] at hmem
      obtain ⟨i, hi, hid⟩ := hmem
      have hlt := List.mem_range.mp hi
      have := ofNat_inj_of_le (by omega) (by omega) hid
      omega
    · simp [Sys.next, h.waker, Executor.push, h.length, queueCapacity]

end RustyOs.QueueBound
