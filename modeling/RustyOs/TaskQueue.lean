import RustyOs.TaskRuns

/-!
The ready queue of the executor, without a bound on the number of tasks ever created.

When ids are given out twice, an entry no longer tells which task it was made for. It still
tells which task it leads to, and that is enough for nobody to be forgotten.
-/

namespace RustyOs.TaskQueue

open RustyOs.Tasks RustyOs.TaskRuns RustyOs.Machine

variable {s s' : Sys} {t w : Tasks.Task}

/-- The task created as number `k`. -/
def task (k : ℕ) : Task := ⟨UInt64.ofNat k, k⟩

/-- Task number 0 is in its first poll, and no other has been created. -/
def firstPoll : Sys where
  executor :=
    { tasks := Function.update (fun _ => none) (task 0).id (some (task 0))
      taskQueue := []
      wakerCache := Function.update (fun _ => none) (task 0).id (some (task 0)) }
  phase := .polling (task 0) (task 0)
  created := 1
  unspawned := []
  wakers := [task 0]
  notified := Function.update (Function.update (fun _ => false) 0 true) 0 false
  finished := fun _ => false

/-- A call of a waker. -/
def wakeTask (s : Sys) (w : Task) : Option Sys :=
  (s.executor.push w).map fun x =>
    { s with executor := x, notified := Function.update s.notified w.serial true }

lemma next_wake (h : s.next (.wake w) = some s') : w ∈ s.wakers ∧ wakeTask s w = some s' := by
  rw [Sys.next] at h
  split_ifs at h with hw
  exact ⟨hw, h⟩

lemma wakeTask_eq_some (h : wakeTask s w = some s') : s' =
    { s with
      executor := { s.executor with taskQueue := s.executor.taskQueue ++ [w] }
      notified := Function.update s.notified w.serial true } := by
  obtain ⟨x, hx, rfl⟩ := Option.map_eq_some_iff.mp h
  rw [push_eq_some hx]

/-- An entry for the id is in the queue or in hand. -/
def Entered (s : Sys) (id : UInt64) : Prop :=
  id ∈ s.executor.taskQueue.map Task.id ∨ ∃ e, s.phase = .popped e ∧ e.id = id

/-- Every task is found under its id, its waker in the cache is its own, and a task that is due
has an entry. -/
structure Due (s : Sys) : Prop where
  unspawned : ∀ t ∈ s.unspawned, t = task t.serial
  task : ∀ id t, s.executor.tasks id = some t → t.id = id ∧ t = task t.serial
  waker : ∀ t ∈ s.wakers, t = TaskQueue.task t.serial
  cached : ∀ id w, s.executor.wakerCache id = some w → s.executor.tasks id = some w
  polling : ∀ e t, s.phase = .polling e t →
    s.executor.tasks e.id = some t ∧ s.executor.wakerCache e.id = some t
  entered : ∀ id t, s.executor.tasks id = some t → s.notified t.serial = true → Entered s id

lemma due_initial : Due .initial := by
  constructor <;> simp [Sys.initial, Executor.new]

namespace Due

variable (h : Due s)
include h

lemma create (hs : s.next .create = some s') : Due s' := by
  cases step_of_next hs
  exact { h with unspawned := List.forall_mem_cons.mpr ⟨rfl, h.unspawned⟩ }

lemma id_eq {id : UInt64} (ht : s.executor.tasks id = some t) (hw : w = TaskQueue.task w.serial)
    (hser : t.serial = w.serial) : w.id = id := by
  obtain ⟨rfl, htask⟩ := h.task id t ht
  rw [hw, htask, hser]

lemma spawn (hs : s.next (.spawn t) = some s') : Due s' := by
  cases step_of_next hs
  case spawn hp hm hnone =>
  have htask := h.unspawned t hm
  refine
    { h with
      unspawned := fun u hu => h.unspawned u (List.mem_of_mem_erase hu)
      task := fun id u hu => ?_
      cached := fun id u hu => ?_
      polling := fun e u hu => by simp [hp] at hu
      entered := fun id u hu hn => .inl ?_ }
  · rcases update_eq_some hu with ⟨rfl, ht⟩ | ⟨-, hu⟩
    · obtain rfl := Option.some.inj ht
      exact ⟨rfl, htask⟩
    · exact h.task id u hu
  · have hu' := h.cached id u hu
    have hid : id ≠ t.id := by
      rintro rfl
      simp [hnone] at hu'
    exact (Function.update_of_ne hid _ _).trans hu'
  · rw [List.map_append, List.mem_append]
    rcases update_eq_some hu with ⟨rfl, -⟩ | ⟨hid, hu⟩
    · exact .inr (by simp)
    · have hser : u.serial ≠ t.serial := fun hser => hid (h.id_eq hu htask hser).symm
      have hn' := (Function.update_of_ne hser true s.notified).symm.trans hn
      refine .inl ((h.entered id u hu hn').resolve_right ?_)
      rintro ⟨e, hp', -⟩
      simp [hp] at hp'

lemma enter (hs : s.next .enter = some s') : Due s' := by
  cases step_of_next hs
  case enter hp =>
  exact
    { h with
      polling := by simp
      entered := fun id t ht hn => .inl ((h.entered id t ht hn).resolve_right (by simp [hp])) }

lemma pop (hs : s.next .pop = some s') : Due s' := by
  cases step_of_next hs with
  | leave hp hq =>
    have hentered := fun id t ht hn => (h.entered id t ht hn).resolve_right (by simp [hp])
    rw [hq] at hentered
    exact
      { h with
        polling := by simp
        entered := fun id t ht hn => absurd (hentered id t ht hn) List.not_mem_nil }
  | @pop e rest hp hq =>
    have hentered := fun id t ht hn => (h.entered id t ht hn).resolve_right (by simp [hp])
    rw [hq] at hentered
    refine { h with polling := by simp, entered := fun id t ht hn => ?_ }
    rcases List.mem_cons.mp (hentered id t ht hn) with rfl | hm
    · exact .inr ⟨e, rfl, rfl⟩
    · exact .inl hm

lemma look (hs : s.next .look = some s') : Due s' := by
  cases step_of_next hs with
  | @stale e hp hnone =>
    refine { h with polling := by simp, entered := fun id t ht hn => .inl ?_ }
    refine (h.entered id t ht hn).resolve_right ?_
    rintro ⟨e', hp', rfl⟩
    obtain rfl : e = e' := by simpa [hp] using hp'
    rw [hnone] at ht
    cases ht
  | @look e t hp ht =>
    obtain ⟨hid, htask⟩ := h.task _ t ht
    have hw : s.executor.wakerFor e.id t = t := by
      rw [Executor.wakerFor]
      rcases hcache : s.executor.wakerCache e.id with _ | w
      · rw [← hid]
        rfl
      · exact Option.some.inj ((h.cached _ w hcache).symm.trans ht)
    refine
      { h with
        waker := List.forall_mem_cons.mpr ⟨by rwa [hw], h.waker⟩
        cached := fun id u hu => ?_
        polling := fun e' u heq => ?_
        entered := fun id u hu hn => .inl ?_ }
    · rcases update_eq_some hu with ⟨rfl, heq⟩ | ⟨-, hu⟩
      · rw [hw] at heq
        exact ht.trans heq
      · exact h.cached id u hu
    · obtain ⟨rfl, rfl⟩ := Phase.polling.inj heq
      exact ⟨ht, (Function.update_self _ _ _).trans (congrArg some hw)⟩
    · -- the polled task is no longer notified, any other is not the one in hand
      simp only [Function.update_apply] at hn
      split_ifs at hn with hser
      refine (h.entered id u hu hn).resolve_right ?_
      rintro ⟨e', hp', rfl⟩
      obtain rfl : e = e' := by simpa [hp] using hp'
      exact hser (by rw [Option.some.inj (hu.symm.trans ht)])

lemma ready (hs : s.next .ready = some s') : Due s' := by
  cases step_of_next hs
  case ready e t hp =>
  refine
    { h with
      task := fun id u hu => ?_
      cached := fun id u hu => ?_
      polling := by simp
      entered := fun id u hu hn => .inl ?_ }
  · exact h.task id u ((update_eq_some hu).resolve_left (by simp)).2
  · obtain ⟨hne, hu⟩ := (update_eq_some hu).resolve_left (by simp)
    exact (Function.update_of_ne hne _ _).trans (h.cached id u hu)
  · have hu := ((update_eq_some hu).resolve_left (by simp)).2
    exact (h.entered id u hu hn).resolve_right (by simp [hp])

lemma pending (hs : s.next .pending = some s') : Due s' := by
  cases step_of_next hs
  case pending hp =>
  exact
    { h with
      polling := by simp
      entered := fun id u hu hn => .inl ((h.entered id u hu hn).resolve_right (by simp [hp])) }

lemma wakeTask (hw : w = TaskQueue.task w.serial) (hs : wakeTask s w = some s') : Due s' := by
  obtain rfl := wakeTask_eq_some hs
  refine { h with entered := fun id u hu hn => ?_ }
  simp only [Function.update_apply] at hn
  split_ifs at hn with hser
  · left
    rw [List.map_append, List.mem_append]
    exact .inr (by simp [h.id_eq hu hw hser])
  · refine (h.entered id u hu hn).imp_left fun hm => ?_
    rw [List.map_append, List.mem_append]
    exact .inl hm

lemma next {e : Event} (hs : s.next e = some s') : Due s' := by
  cases e with
  | create => exact h.create hs
  | spawn t => exact h.spawn hs
  | enter => exact h.enter hs
  | pop => exact h.pop hs
  | look => exact h.look hs
  | ready => exact h.ready hs
  | pending => exact h.pending hs
  | wake w =>
    obtain ⟨hw, hs⟩ := next_wake hs
    exact h.wakeTask (h.waker w hw) hs

end Due

end RustyOs.TaskQueue
