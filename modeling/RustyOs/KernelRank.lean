import RustyOs.Kernel

/-!
How long a task that has been woken waits for its poll.

The queue is served in order and nothing is put in front of what it holds, so every step of
`run_ready_tasks` brings the next poll of the task nearer, whatever the other tasks do.
-/

namespace RustyOs.Kernel

open RustyOs.Tasks RustyOs.TaskQueue RustyOs.TaskRuns RustyOs.Machine RustyOs.Polled

variable {β σ ι : Type} {k : ℕ} {x x' : Sys} {w : Tasks.Task}

/-- The steps of `run_ready_tasks`. -/
def isWork : Tasks.Event → Bool
  | .enter => true
  | .pop => true
  | .look => true
  | .ready => true
  | .pending => true
  | _ => false

/-- The entries in front of the first one for task number `k`. -/
def position (k : ℕ) (s : Sys) : ℕ := (s.executor.taskQueue.map Task.id).idxOf (task k).id

/-- The steps of the executor before it polls task number `k`: three for each entry in front. -/
def rank (k : ℕ) (s : Sys) : ℕ :=
  match s.phase with
  | .outside => 3 * position k s + 3
  | .loop => 3 * position k s + 2
  | .popped e => if e.id = (task k).id then 1 else 3 * position k s + 4
  | .polling _ _ => 3 * position k s + 3

lemma rank_le (k : ℕ) (s : Sys) : rank k s ≤ 3 * s.executor.taskQueue.length + 4 := by
  have hpos : position k s ≤ (s.executor.taskQueue.map Task.id).length := List.idxOf_le_length
  rw [List.length_map] at hpos
  unfold rank
  split <;> (try split_ifs) <;> omega

lemma rank_append (hent : Entered x (task k).id)
    (hq : x'.executor.taskQueue = x.executor.taskQueue ++ [w]) (hp : x'.phase = x.phase) :
    rank k x' = rank k x := by
  rcases hent with hm | ⟨e, he, hid⟩
  · have hpos : position k x' = position k x := by
      rw [position, hq, List.map_append, List.idxOf_append_of_mem hm]
      rfl
    unfold rank
    rw [hp, hpos]
  · simp [rank, hp, he, hid]

lemma rank_pop (hent : Entered x (task k).id) (h : x.next .pop = some x') :
    rank k x' + 1 ≤ rank k x := by
  cases step_of_next h with
  | leave hp hq =>
    have hm := hent.resolve_right (by simp [hp])
    rw [hq] at hm
    cases hm
  | @pop e rest hp hq =>
    by_cases hid : e.id = (task k).id
    · simp [rank, hp, hid]
    · simp only [rank, hp, hid, if_false, position, hq, List.map_cons,
        List.idxOf_cons_ne _ hid]
      omega

lemma rank_look (hl : lives k x = true) (h : x.next .look = some x') :
    polls k x.phase = false ∧ polls k x'.phase = true ∨ rank k x' + 1 ≤ rank k x := by
  have hl' : x.executor.tasks (task k).id = some (task k) := by simpa [lives] using hl
  cases step_of_next h with
  | @stale e hp hnone =>
    have hid : e.id ≠ (task k).id := by
      intro hid
      rw [hid, hl'] at hnone
      cases hnone
    right
    simp [rank, hp, hid, position]
  | @look e t hp ht =>
    by_cases hid : e.id = (task k).id
    · left
      rw [hid, hl'] at ht
      simp [polls, hp, Option.some.inj ht]
    · right
      simp [rank, hp, hid, position, Executor.withWaker]

/-- A task that has been woken is polled next, or comes nearer to it by every step of the
executor. -/
lemma rank_next (hd : Due x) (hl : lives k x = true) (hn : x.notified k = true)
    {e : Tasks.Event} (h : x.next e = some x') :
    polls k x.phase = false ∧ polls k x'.phase = true ∨
      rank k x' + (isWork e).toNat ≤ rank k x := by
  have hent : Entered x (task k).id := hd.entered _ (task k) (by simpa [lives] using hl) hn
  cases e with
  | create =>
    cases step_of_next h
    exact .inr (le_refl _)
  | spawn t =>
    cases step_of_next h
    refine .inr (Nat.le_of_eq ?_)
    exact rank_append hent rfl rfl
  | enter =>
    cases step_of_next h
    case enter hp =>
    right
    simp [rank, hp, position, isWork]
  | pop => exact .inr (rank_pop hent h)
  | look => exact rank_look hl h
  | ready =>
    cases step_of_next h
    case ready hp =>
    right
    simp [rank, hp, position, isWork, Executor.remove]
  | pending =>
    cases step_of_next h
    case pending hp =>
    right
    simp [rank, hp, position, isWork]
  | wake w =>
    obtain rfl := wakeTask_eq_some (next_wake h).2
    refine .inr (Nat.le_of_eq ?_)
    exact rank_append hent rfl rfl

lemma isWork_of_polls (hp : polls k x.phase = true) {e : Tasks.Event} (hne : isReturn e = false)
    (h : x.next e = some x') : isWork e = false := by
  rcases hph : x.phase with _ | _ | e' | ⟨e', t⟩
  · simp [polls, hph] at hp
  · simp [polls, hph] at hp
  · simp [polls, hph] at hp
  · cases e <;> simp_all [isWork, isReturn, Sys.next]

/-- The work of the executor and of the task. -/
def Event.isWork : Event ι → Bool
  | .exec e => Kernel.isWork e
  | .act => true
  | _ => false

variable {P : Poller β σ ι} {s s' : State β σ} {p : ι → Prop}

lemma exists_work (h : Inv k s) (hent : Entered s.sys (task k).id)
    (hp : polls k s.sys.phase = false) : ∃ (e : Event ι) (s' : State β σ), e.Ok p ∧
      s.next P k e = some s' ∧ (e.isWork = true ∨ s.sleep = .masked ∧ s'.sleep = .awake) := by
  by_cases hawake : s.sleep = .awake
  · rcases hph : s.sys.phase with _ | _ | e | ⟨e, t⟩
    · exact ⟨.exec .enter, _, trivial, by simp [State.next, hawake, hph, polls, Sys.next]; rfl,
        .inl rfl⟩
    · refine ⟨.exec .pop, ?_⟩
      rcases hq : s.sys.executor.taskQueue with _ | ⟨e, rest⟩
      · exact ⟨_, trivial, by simp [State.next, hawake, hph, polls, Sys.next, hq]; rfl, .inl rfl⟩
      · exact ⟨_, trivial, by simp [State.next, hawake, hph, polls, Sys.next, hq]; rfl, .inl rfl⟩
    · refine ⟨.exec .look, ?_⟩
      rcases ht : s.sys.executor.tasks e.id with _ | t
      · exact ⟨_, trivial, by simp [State.next, hawake, hph, polls, Sys.next, ht]; rfl, .inl rfl⟩
      · exact ⟨_, trivial, by simp [State.next, hawake, hph, polls, Sys.next, ht]; rfl, .inl rfl⟩
    · have ht : t ≠ task k := by simpa [polls, hph] using hp
      exact ⟨.exec .pending, _, trivial,
        by simp [State.next, hawake, hph, polls, Sys.next, ht]; rfl, .inl rfl⟩
  · -- the look of `sleep_if_idle` finds the entry
    have hout := h.outside hawake
    have hmem := hent.resolve_right (by simp [hout])
    have hne : s.sys.executor.taskQueue ≠ [] := fun hq => by simp [hq] at hmem
    have hmasked : s.sleep = .masked := by
      rcases hs : s.sleep with _ | _ | _ | _
      · exact absurd hs hawake
      · rfl
      · exact absurd (h.empty (.inl hs)) hne
      · exact absurd (h.empty (.inr hs)) hne
    refine ⟨.sleepIfIdle, { s with sleep := .awake }, trivial, ?_, .inr ⟨hmasked, rfl⟩⟩
    simp [State.next, State.sleepIfIdle, hmasked, hne]

end RustyOs.Kernel
