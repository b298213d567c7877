import RustyOs.Tasks
import RustyOs.Machine

/-!
Runs of the executor.

A queue entry and a waker outlive the task they were made for, and nothing in them says so: the
loop finds out by a look-up of the id. This is sound because an id is never given out twice, which
the invariant says by equating the id of everything in sight with its serial number.
-/

namespace RustyOs.TaskRuns

open RustyOs.Tasks RustyOs.Machine

variable {s s' : Sys} {x x' : Executor} {t t' : Tasks.Task} {n : ℕ}

/-! ### The operations -/

lemma push_eq_some (h : x.push t = some x') :
    x' = { x with taskQueue := x.taskQueue ++ [t] } := by
  rw [Executor.push] at h
  split_ifs at h
  exact (Option.some.inj h).symm

lemma spawn_eq_some (h : x.spawn t = some x') : x.tasks t.id = none ∧
    x' = ⟨Function.update x.tasks t.id (some t), x.taskQueue ++ [t], x.wakerCache⟩ := by
  rw [Executor.spawn] at h
  split_ifs at h with hid
  exact ⟨Option.not_isSome_iff_eq_none.mp hid, push_eq_some h⟩

lemma update_eq_some {f : UInt64 → Option Task} {k id : UInt64} {v : Option Task}
    (h : Function.update f k v id = some t) : id = k ∧ v = some t ∨ id ≠ k ∧ f id = some t := by
  rw [Function.update_apply] at h
  split_ifs at h with hid
  · exact .inl ⟨hid, h⟩
  · exact .inr ⟨hid, h⟩

/-- What each event does, with what it finds. -/
inductive Step (s : Sys) : Event → Sys → Prop
  | create : Step s .create
      { s with
        created := s.created + 1
        unspawned := ⟨UInt64.ofNat s.created, s.created⟩ :: s.unspawned }
  | spawn {t : Task} (hp : s.phase = .outside) (hm : t ∈ s.unspawned)
      (hnone : s.executor.tasks t.id = none) : Step s (.spawn t)
      { s with
        executor := ⟨Function.update s.executor.tasks t.id (some t), s.executor.taskQueue ++ [t],
          s.executor.wakerCache⟩
        unspawned := s.unspawned.erase t
        notified := Function.update s.notified t.serial true }
  | enter (hp : s.phase = .outside) : Step s .enter { s with phase := .loop }
  | leave (hp : s.phase = .loop) (hq : s.executor.taskQueue = []) :
      Step s .pop { s with phase := .outside }
  | pop {e : Task} {rest : List Task} (hp : s.phase = .loop)
      (hq : s.executor.taskQueue = e :: rest) : Step s .pop
      { s with executor := { s.executor with taskQueue := rest }, phase := .popped e }
  | stale {e : Task} (hp : s.phase = .popped e) (ht : s.executor.tasks e.id = none) :
      Step s .look { s with phase := .loop }
  | look {e t : Task} (hp : s.phase = .popped e) (ht : s.executor.tasks e.id = some t) :
      Step s .look
      { s with
        executor := s.executor.withWaker e.id t
        phase := .polling e t
        wakers := s.executor.wakerFor e.id t :: s.wakers
        notified := Function.update s.notified t.serial false }
  | ready {e t : Task} (hp : s.phase = .polling e t) : Step s .ready
      { s with
        executor := s.executor.remove e.id
        phase := .loop
        finished := Function.update s.finished t.serial true }
  | pending {e t : Task} (hp : s.phase = .polling e t) :
      Step s .pending { s with phase := .loop }
  | wake {w : Task} (hw : w ∈ s.wakers) : Step s (.wake w)
      { s with
        executor := { s.executor with taskQueue := s.executor.taskQueue ++ [w] }
        notified := Function.update s.notified w.serial true }

lemma step_of_next {e : Event} (h : s.next e = some s') : Step s e s' := by
  cases e with
  | create =>
    obtain rfl := Option.some.inj h
    exact .create
  | spawn t =>
    rw [Sys.next] at h
    split_ifs at h with hc
    obtain ⟨x, hx, rfl⟩ := Option.map_eq_some_iff.mp h
    obtain ⟨hnone, rfl⟩ := spawn_eq_some hx
    exact .spawn hc.1 hc.2 hnone
  | enter =>
    rw [Sys.next] at h
    split_ifs at h with hp
    obtain rfl := Option.some.inj h
    exact .enter hp
  | pop =>
    rw [Sys.next] at h
    split_ifs at h with hp
    rcases hq : s.executor.taskQueue with _ | ⟨e, rest⟩ <;> rw [hq] at h <;>
      obtain rfl := Option.some.inj h
    · exact .leave hp hq
    · exact .pop hp hq
  | look =>
    rw [Sys.next] at h
    split at h
    case h_2 => cases h
    case h_1 e hp =>
    split at h <;> obtain rfl := Option.some.inj h
    case h_1 ht => exact .stale hp ht
    case h_2 t ht => exact .look hp ht
  | ready =>
    rw [Sys.next] at h
    split at h
    case h_2 => cases h
    case h_1 e t hp =>
    obtain rfl := Option.some.inj h
    exact .ready hp
  | pending =>
    rw [Sys.next] at h
    split at h
    case h_2 => cases h
    case h_1 e t hp =>
    obtain rfl := Option.some.inj h
    exact .pending hp
  | wake w =>
    rw [Sys.next] at h
    split_ifs at h with hw
    obtain ⟨x, hx, rfl⟩ := Option.map_eq_some_iff.mp h
    obtain rfl := push_eq_some hx
    exact .wake hw

/-- No more tasks are created than there are ids. -/
def EnoughIds (s : Sys) : Event → Prop
  | .create => s.created < 2 ^ 64
  | _ => True

/-! ### The invariant -/

/-- The id is the serial number, one of the `n` that were given out. -/
def Genuine (n : ℕ) (t : Task) : Prop := t.id.toNat = t.serial ∧ t.serial < n

lemma Genuine.eq_of_id (h : Genuine n t) (h' : Genuine n t') (hid : t.id = t'.id) : t = t' := by
  have hs : t.serial = t'.serial := by rw [← h.1, ← h'.1, hid]
  cases t
  cases t'
  simp_all

lemma Genuine.eq_of_serial (h : Genuine n t) (h' : Genuine n t') (hs : t.serial = t'.serial) :
    t = t' :=
  h.eq_of_id h' (UInt64.toNat_inj.mp (by rw [h.1, h'.1, hs]))

/-- The entry in hand. -/
def inHand : Phase → Option Task
  | .popped e => some e
  | .polling e _ => some e
  | _ => none

/-- What holds in every state. -/
structure Inv (s : Sys) : Prop where
  task : ∀ id t, s.executor.tasks id = some t →
    t.id = id ∧ Genuine s.created t ∧ s.finished t.serial = false
  unspawned : ∀ t ∈ s.unspawned, Genuine s.created t ∧ s.executor.tasks t.id = none ∧
    s.finished t.serial = false
  nodup : s.unspawned.Nodup
  queue : ∀ t ∈ s.executor.taskQueue, Genuine s.created t
  waker : ∀ t ∈ s.wakers, Genuine s.created t
  cached : ∀ id t, s.executor.wakerCache id = some t →
    t.id = id ∧ Genuine s.created t ∧ (s.executor.tasks id).isSome
  entry : ∀ e ∈ inHand s.phase, Genuine s.created e
  polling : ∀ e t, s.phase = .polling e t → s.executor.tasks e.id = some t
  finished : ∀ k, s.finished k = true → k < s.created
  woken : ∀ id t, s.executor.tasks id = some t → s.notified t.serial = true →
    t ∈ s.executor.taskQueue ∨ s.phase = .popped t

lemma inv_initial : Inv .initial := by
  constructor <;> simp [Sys.initial, Executor.new, inHand]

namespace Inv

variable (h : Inv s)
include h

lemma next_id (hlt : s.created < 2 ^ 64) : s.executor.tasks (UInt64.ofNat s.created) = none := by
  rcases htask : s.executor.tasks (UInt64.ofNat s.created) with _ | t
  · rfl
  · obtain ⟨hid, ⟨hser, hold⟩, -⟩ := h.task _ t htask
    rw [hid, UInt64.toNat_ofNat_of_lt' hlt] at hser
    omega

lemma create (hlt : s.created < 2 ^ 64) (hs : s.next .create = some s') : Inv s' := by
  cases step_of_next hs
  have hid : (UInt64.ofNat s.created).toNat = s.created := UInt64.toNat_ofNat_of_lt' hlt
  have hnew : s.finished s.created = false :=
    Bool.eq_false_of_not_eq_true fun hf => lt_irrefl _ (h.finished _ hf)
  -- everything in sight stays genuine as the count grows
  have hgen : ∀ {t}, Genuine s.created t → Genuine (s.created + 1) t :=
    fun ht => ⟨ht.1, ht.2.trans (Nat.lt_succ_self _)⟩
  exact
    { h with
      task := fun id t ht => ((h.task id t ht).imp_right fun hr => ⟨hgen hr.1, hr.2⟩)
      unspawned := List.forall_mem_cons.mpr
        ⟨⟨⟨hid, Nat.lt_succ_self _⟩, h.next_id hlt, hnew⟩,
          fun t ht => ⟨hgen (h.unspawned t ht).1, (h.unspawned t ht).2⟩⟩
      nodup := List.nodup_cons.mpr ⟨fun hm => lt_irrefl _ (h.unspawned _ hm).1.2, h.nodup⟩
      queue := fun t ht => hgen (h.queue t ht)
      waker := fun t ht => hgen (h.waker t ht)
      cached := fun id t ht => ((h.cached id t ht).imp_right fun hr => ⟨hgen hr.1, hr.2⟩)
      entry := fun e he => hgen (h.entry e he)
      finished := fun k hk => (h.finished k hk).trans (Nat.lt_succ_self _) }

lemma spawn (hs : s.next (.spawn t) = some s') : Inv s' := by
  cases step_of_next hs
  case spawn hp hm hnone =>
  obtain ⟨hgen, -, hfin⟩ := h.unspawned t hm
  refine
    { h with
      task := fun id u hu => ?_
      unspawned := fun u hu => ?_
      nodup := h.nodup.erase t
      queue := List.forall_mem_append.mpr ⟨h.queue, List.forall_mem_singleton.mpr hgen⟩
      cached := fun id u hu => ?_
      polling := fun e u hu => by simp [hp] at hu
      woken := fun id u hu hn => .inl ?_ }
  · rcases update_eq_some hu with ⟨rfl, ht⟩ | ⟨-, hu⟩
    · obtain rfl := Option.some.inj ht
      exact ⟨rfl, hgen, hfin⟩
    · exact h.task id u hu
  · -- another unspawned task has another id
    obtain ⟨hne, hu⟩ := h.nodup.mem_erase_iff.mp hu
    obtain ⟨hgen', hnone', hfin'⟩ := h.unspawned u hu
    have hid : u.id ≠ t.id := fun hid => hne (hgen'.eq_of_id hgen hid)
    exact ⟨hgen', (Function.update_of_ne hid _ _).trans hnone', hfin'⟩
  · obtain ⟨h1, h2, h3⟩ := h.cached id u hu
    have hid : id ≠ t.id := by
      rintro rfl
      simp [hnone] at h3
    exact ⟨h1, h2, by rwa [← Function.update_of_ne hid (some t) s.executor.tasks] at h3⟩
  · rw [List.mem_append, List.mem_singleton]
    rcases update_eq_some hu with ⟨-, ht⟩ | ⟨hid, hu⟩
    · exact .inr (Option.some.inj ht).symm
    · obtain ⟨rfl, hgen', -⟩ := h.task id u hu
      have hser : u.serial ≠ t.serial := fun hser => hid (by rw [hgen'.eq_of_serial hgen hser])
      have hn' := (Function.update_of_ne hser true s.notified).symm.trans hn
      exact .inl ((h.woken _ u hu hn').resolve_right (by simp [hp]))

lemma enter (hs : s.next .enter = some s') : Inv s' := by
  cases step_of_next hs
  case enter hp =>
  exact
    { h with
      entry := by simp [inHand]
      polling := by simp
      woken := fun id t ht hn => .inl ((h.woken id t ht hn).resolve_right (by simp [hp])) }

lemma pop (hs : s.next .pop = some s') : Inv s' := by
  cases step_of_next hs with
  | leave hp hq =>
    have hwoken := fun id t ht hn => (h.woken id t ht hn).resolve_right (by simp [hp])
    rw [hq] at hwoken
    exact
      { h with
        entry := by simp [inHand]
        polling := by simp
        woken := fun id t ht hn => absurd (hwoken id t ht hn) List.not_mem_nil }
  | pop hp hq =>
    have hqueue := h.queue
    have hwoken := fun id t ht hn => (h.woken id t ht hn).resolve_right (by simp [hp])
    rw [hq, List.forall_mem_cons] at hqueue
    rw [hq] at hwoken
    exact
      { h with
        queue := hqueue.2
        entry := by simpa [inHand] using hqueue.1
        polling := by simp
        woken := fun id t ht hn => (List.mem_cons.mp (hwoken id t ht hn)).symm.imp_right
          (congrArg Phase.popped ·.symm) }

lemma wakerFor (hgen : Genuine s.created t) : (s.executor.wakerFor t.id t).id = t.id ∧
    Genuine s.created (s.executor.wakerFor t.id t) := by
  rw [Executor.wakerFor]
  rcases hcache : s.executor.wakerCache t.id with _ | w
  · exact ⟨rfl, hgen⟩
  · obtain ⟨hid, hw, -⟩ := h.cached _ w hcache
    exact ⟨hid, hw⟩

lemma look (hs : s.next .look = some s') : Inv s' := by
  cases step_of_next hs with
  | @stale e hp hnone =>
    exact
      { h with
        entry := by simp [inHand]
        polling := by simp
        woken := fun id t ht hn => .inl ((h.woken id t ht hn).resolve_right fun hpt => by
          obtain rfl : e = t := by simpa [hp] using hpt
          rw [← (h.task id e ht).1, hnone] at ht
          cases ht) }
  | @look e t hp ht =>
    have he : Genuine s.created e := h.entry e (by simp [hp, inHand])
    obtain ⟨hid, hgen, hfin⟩ := h.task _ t ht
    obtain rfl : t = e := hgen.eq_of_id he hid
    have hw := h.wakerFor hgen
    refine
      { h with
        waker := List.forall_mem_cons.mpr ⟨hw.2, h.waker⟩
        cached := fun id u hu => ?_
        entry := by simpa [inHand] using hgen
        polling := fun e u heq => ?_
        woken := fun id u hu hn => .inl ?_ }
    · rcases update_eq_some hu with ⟨rfl, heq⟩ | ⟨-, hu⟩
      · obtain rfl := Option.some.inj heq
        exact ⟨hw.1, hw.2, by simp [Executor.withWaker, ht]⟩
      · exact h.cached id u hu
    · obtain ⟨rfl, rfl⟩ := Phase.polling.inj heq
      exact ht
    · -- the polled task is no longer notified, any other is not the popped one
      simp only [Function.update_apply] at hn
      split_ifs at hn with hser
      refine (h.woken id u hu hn).resolve_right fun hpu => hser ?_
      rw [hp, Phase.popped.injEq] at hpu
      rw [hpu]

lemma ready (hs : s.next .ready = some s') : Inv s' := by
  cases step_of_next hs
  case ready e t hp =>
  have ht := h.polling e t hp
  obtain ⟨hid, hgen, hfin⟩ := h.task _ t ht
  have hold : ∀ {id u}, (s.executor.remove e.id).tasks id = some u →
      id ≠ e.id ∧ s.executor.tasks id = some u := by
    intro id u hu
    exact (update_eq_some hu).resolve_left (by simp)
  -- no other task has the number of the finished one
  have hother : ∀ {u}, Genuine s.created u → u.id ≠ e.id → u.serial ≠ t.serial := fun hu hne hser =>
    hne (by rw [hu.eq_of_serial hgen hser, hid])
  refine
    { h with
      task := fun id u hu => ?_
      unspawned := fun u hu => ?_
      cached := fun id u hu => ?_
      entry := by simp [inHand]
      polling := by simp
      finished := fun k hk => ?_
      woken := fun id u hu hn =>
        .inl ((h.woken id u (hold hu).2 hn).resolve_right (by simp [hp])) }
  · obtain ⟨hne, hu⟩ := hold hu
    obtain ⟨rfl, hgen', hfin'⟩ := h.task id u hu
    exact ⟨rfl, hgen', (Function.update_of_ne (hother hgen' hne) _ _).trans hfin'⟩
  · obtain ⟨hgen', hnone, hfin'⟩ := h.unspawned u hu
    have hne : u.id ≠ e.id := by
      rintro heq
      rw [heq, ht] at hnone
      cases hnone
    exact ⟨hgen', (Function.update_of_ne hne _ _).trans hnone,
      (Function.update_of_ne (hother hgen' hne) _ _).trans hfin'⟩
  · obtain ⟨hne, hu⟩ := (update_eq_some hu).resolve_left (by simp)
    obtain ⟨h1, h2, h3⟩ := h.cached id u hu
    refine ⟨h1, h2, ?_⟩
    rwa [← Function.update_of_ne hne none s.executor.tasks] at h3
  · simp only [Function.update_apply] at hk
    split_ifs at hk with heq
    · exact heq ▸ hgen.2
    · exact h.finished k hk

lemma pending (hs : s.next .pending = some s') : Inv s' := by
  cases step_of_next hs
  case pending hp =>
  exact
    { h with
      entry := by simp [inHand]
      polling := by simp
      woken := fun id u hu hn => .inl ((h.woken id u hu hn).resolve_right (by simp [hp])) }

lemma wake (hs : s.next (.wake t) = some s') : Inv s' := by
  cases step_of_next hs
  case wake hw =>
  have hgen := h.waker t hw
  refine
    { h with
      queue := List.forall_mem_append.mpr ⟨h.queue, List.forall_mem_singleton.mpr hgen⟩
      woken := fun id u hu hn => ?_ }
  rw [List.mem_append, List.mem_singleton]
  simp only [Function.update_apply] at hn
  split_ifs at hn with hser
  · exact .inl (.inr ((h.task id u hu).2.1.eq_of_serial hgen hser))
  · exact (h.woken id u hu hn).imp_left .inl

end Inv

lemma inv_of_reach (h : Reach Sys.next EnoughIds .initial s) : Inv s := by
  refine h.inv inv_initial fun s e s' hi hok hs => ?_
  cases e with
  | create => exact hi.create hok hs
  | spawn t => exact hi.spawn hs
  | enter => exact hi.enter hs
  | pop => exact hi.pop hs
  | look => exact hi.look hs
  | ready => exact hi.ready hs
  | pending => exact hi.pending hs
  | wake w => exact hi.wake hs

/-- **The executor polls who is due.** The task in a poll has not finished and is the one whose
entry was popped; a task that is due has an entry, or its entry is in hand; and only tasks have a
waker in the cache. -/
theorem schedules_safely (h : Reach Sys.next EnoughIds .initial s) :
    (∀ e t, s.phase = .polling e t → s.finished t.serial = false ∧ t.serial = e.serial) ∧
    (∀ id t, s.executor.tasks id = some t → s.notified t.serial = true →
      id ∈ s.executor.taskQueue.map Task.id ∨ ∃ e, s.phase = .popped e ∧ e.id = id) ∧
    (∀ id, (s.executor.wakerCache id).isSome → (s.executor.tasks id).isSome) := by
  have hi := inv_of_reach h
  refine ⟨fun e t hp => ?_, fun id t ht hn => ?_, fun id hid => ?_⟩
  · have he : Genuine s.created e := hi.entry e (by simp [hp, inHand])
    obtain ⟨hid, hgen, hfin⟩ := hi.task _ t (hi.polling e t hp)
    exact ⟨hfin, by rw [hgen.eq_of_id he hid]⟩
  · obtain ⟨rfl, -, -⟩ := hi.task id t ht
    rcases hi.woken _ t ht hn with hm | hp
    · exact .inl (List.mem_map_of_mem hm)
    · exact .inr ⟨t, hp, rfl⟩
  · obtain ⟨w, hw⟩ := Option.isSome_iff_exists.mp hid
    exact (hi.cached id w hw).2.2

/-- A task that is woken in its first poll. -/
theorem schedules_safely_woken : ∃ s, Reach Sys.next EnoughIds .initial s ∧
    s.phase = .polling ⟨0, 0⟩ ⟨0, 0⟩ ∧ s.finished 0 = false ∧ s.notified 0 = true ∧
    0 ∈ s.executor.taskQueue.map Task.id ∧ (s.executor.tasks 0).isSome := by
  have h : Reach Sys.next EnoughIds .initial .initial := .start
  have h := Reach.step (e := Event.create) h (Nat.two_pow_pos 64) rfl
  have h := Reach.step (e := Event.spawn ⟨0, 0⟩) h trivial rfl
  have h := Reach.step (e := Event.enter) h trivial rfl
  have h := Reach.step (e := Event.pop) h trivial rfl
  have h := Reach.step (e := Event.look) h trivial rfl
  have h := Reach.step (e := Event.wake ⟨0, 0⟩) h trivial rfl
  obtain ⟨hpoll, hwoken, hcache⟩ := schedules_safely h
  refine ⟨_, h, rfl, (hpoll _ _ rfl).1, rfl, ?_, hcache 0 rfl⟩
  rcases hwoken 0 ⟨0, 0⟩ rfl rfl with hm | ⟨e, hp, -⟩
  · exact hm
  · cases hp

end RustyOs.TaskRuns
