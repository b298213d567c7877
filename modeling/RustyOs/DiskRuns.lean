import RustyOs.DiskTask

/-!
Whole runs of the reading task: an answered read returns, and what the two ways are in which a
run can go wrong.

A read that has been answered is complete or will be looked at, and the number of steps until it
returns goes down with every step of the executor and of the task. Entries of the queue that the
task no longer needs can fill it up, and an answer with an error wakes nobody.
-/

namespace RustyOs.DiskRuns

open RustyOs.Tasks RustyOs.TaskQueue RustyOs.Machine RustyOs.Polled RustyOs.Kernel RustyOs.Ata
open RustyOs.AtaRuns RustyOs.DiskTask

variable {disk : UInt32 → Sector} {lba : UInt32} {d d' : Disk}
variable {lbas : List UInt32} {v v' : View Stage Disk}

/-! ### An answered read returns -/

variable {k : ℕ} {s s' : State Stage Disk} {done : List (UInt32 × Sector)}

/-- The task waits for a read that has been answered. -/
structure Waiting (done : List (UInt32 × Sector)) (lba : UInt32) (s : State Stage Disk) :
    Prop where
  results : s.source.results = done
  call : inCall s.stage = [lba]
  answered : s.source.device = []

/-- The work left until the read returns. -/
def left (k : ℕ) (s : State Stage Disk) : ℕ :=
  if polls k s.sys.phase then
    match s.stage with
    | .register _ => 2
    | .pend _ => rank k s.sys + 2
    | _ => 1
  else rank k s.sys + 2

lemma left_le (k : ℕ) (s : State Stage Disk) :
    left k s ≤ 3 * s.sys.executor.taskQueue.length + 6 := by
  have hrank := rank_le k s.sys
  unfold left
  split_ifs
  · split <;> omega
  · omega

lemma left_pos (k : ℕ) (s : State Stage Disk) : 0 < left k s := by
  unfold left
  split_ifs
  · split <;> omega
  · omega

/-- What is known of an answered read in every run. -/
structure Awaited (disk : UInt32 → Sector) (k : ℕ) (lba : UInt32) (s : State Stage Disk) :
    Prop where
  inv : Inv k s
  complete : Complete s.source lba
  buffer : s.source.driver.sectorBuffer = disk (addressed lba)
  live : lives k s.sys = true
  asleep : polls k s.sys.phase = false → s.stage = .check lba
  notified : polls k s.sys.phase = false ∨ s.stage = .pend lba → s.sys.notified k = true

lemma Waiting.awaited (hw : Waiting done lba s)
    (h : Runs (readTask disk) Drq k .call (.initial lbas) s) : Awaited disk k lba s := by
  obtain ⟨hinv, hview⟩ := runs_inv h
  have hreads := reads_of_reach hview
  obtain ⟨hlba, hans⟩ := hreads.waits lba (by simp [State.view, hw.call])
  rcases hans with ⟨hdev, -⟩ | ⟨-, hoc, hbuf⟩
  · have hnil : (s.view k).source.device = [] := hw.answered
    rw [hnil] at hdev
    cases hdev
  have hcomp : Complete s.source lba := ⟨hoc, hlba⟩
  have hl : lives k s.sys = true := hreads.live (.inr (by simp [State.view, hw.call]))
  have hasleep : polls k s.sys.phase = false → s.stage = .check lba := fun hp => by
    have hcall := hw.call
    rcases stage_of_reach hview hp with hst | ⟨l, hst⟩ <;> change s.stage = _ at hst
    · simp [hst, inCall] at hcall
    · rw [hst]
      simpa [hst, inCall] using hcall
  have hwatched := careful.watched (by simp [protocol]) hview
  refine ⟨hinv, hcomp, hbuf, hl, hasleep, ?_⟩
  rintro (hp | hst)
  · exact hwatched.due hp hl ⟨lba, .inl (hasleep hp), hcomp⟩
  · cases hp : polls k s.sys.phase with
    | false => exact hwatched.due hp hl ⟨lba, .inl (hasleep hp), hcomp⟩
    | true => exact hwatched.blocked hp ⟨lba, hst⟩ ⟨lba, .inr hst, hcomp⟩

lemma Waiting.exec (hw : Waiting done lba s) (ha : Awaited disk k lba s) {e : Tasks.Event}
    (hs : s.next (readTask disk) k (.exec e) = some s') :
    Waiting done lba s' ∧ left k s' + (isWork e).toNat ≤ left k s := by
  obtain ⟨hne, x, hx, rfl⟩ := next_exec hs
  refine ⟨⟨hw.results, hw.call, hw.answered⟩, ?_⟩
  cases hp : polls k s.sys.phase with
  | true =>
    -- the others can only create tasks and call wakers
    have hret : isReturn e = false := by simpa [hp] using hne
    have hwork := isWork_of_polls hp hret hx
    have hpx : polls k x.phase = true := by
      cases touch_next ha.inv.due hne hx with
      | none hl hp' hn => rw [hp', hp]
      | spawn hl hp' hn => rw [hp', hp]
      | wake hl hp' hn => rw [hp', hp]
      | resume hs hl hp' hn => exact hp'
    have hrank : s.stage = .pend lba → rank k x ≤ rank k s.sys := fun hst => by
      rcases rank_next ha.inv.due ha.live (ha.notified (.inr hst)) hx with ⟨hf, -⟩ | hle
      · simp [hp] at hf
      · omega
    have hcall := hw.call
    cases hst : s.stage <;> simp [left, hp, hpx, hwork, hst]
    case pend l =>
      obtain rfl : l = lba := by simpa [hst, inCall] using hcall
      exact hrank hst
  | false =>
    have hst := ha.asleep hp
    have hle : (isWork e).toNat ≤ 1 := Bool.toNat_le _
    cases hpx : polls k x.phase with
    | true =>
      simp [left, hp, hpx, hst]
      omega
    | false =>
      rcases rank_next ha.inv.due ha.live (ha.notified (.inl hp)) hx with ⟨-, hf⟩ | hrank
      · simp [hpx] at hf
      · simp [left, hp, hpx]
        omega

lemma Waiting.act (hw : Waiting done lba s) (ha : Awaited disk k lba s)
    (hs : s.next (readTask disk) k .act = some s') :
    done ++ [(lba, disk (addressed lba))] <+: s'.source.results ∨
      Waiting done lba s' ∧ left k s' + 1 ≤ left k s := by
  obtain ⟨e, hp, hs⟩ := next_act hs
  change s.act e (poll s.stage s.source) = some s' at hs
  have hcall := hw.call
  cases hst : s.stage with
  | call => simp [hst, inCall] at hcall
  | check l =>
    obtain rfl : l = lba := by simpa [hst, inCall] using hcall
    rw [hst, poll, look_of_complete ha.complete] at hs
    obtain rfl := Option.some.inj hs
    left
    simp [Disk.returned, hw.results, ha.buffer]
  | register l =>
    obtain rfl : l = lba := by simpa [hst, inCall] using hcall
    rw [hst, poll] at hs
    obtain rfl := Option.some.inj hs
    right
    exact ⟨⟨hw.results, rfl, hw.answered⟩, by simp [left, hst, hp, polls]⟩
  | recheck l =>
    obtain rfl : l = lba := by simpa [hst, inCall] using hcall
    rw [hst, poll, look_of_complete ha.complete] at hs
    obtain rfl := Option.some.inj hs
    left
    simp [Disk.returned, hw.results, ha.buffer]
  | pend l =>
    obtain rfl : l = lba := by simpa [hst, inCall] using hcall
    rw [hst, poll, State.act, Tasks.Sys.next, hp] at hs
    obtain rfl := Option.some.inj hs
    right
    exact ⟨⟨hw.results, rfl, hw.answered⟩, by simp [left, hst, hp, polls, rank, position]⟩

lemma Waiting.next (hw : Waiting done lba s) (ha : Awaited disk k lba s) {e : Event UInt8}
    (hs : s.next (readTask disk) k e = some s') :
    done ++ [(lba, disk (addressed lba))] <+: s'.source.results ∨
      Waiting done lba s' ∧ left k s' + e.isWork.toNat ≤ left k s := by
  cases e with
  | exec e => exact .inr (hw.exec ha hs)
  | act => exact hw.act ha hs
  | irq status =>
    -- there is nothing left to answer
    obtain ⟨d, wakes, hi, -⟩ := next_irq hs
    obtain ⟨cmd, hdev, -⟩ := answer_cases hi
    rw [hw.answered] at hdev
    cases hdev
  | tick =>
    rw [State.next] at hs
    split_ifs at hs <;> obtain rfl := Option.some.inj hs <;>
      exact .inr ⟨⟨hw.results, hw.call, hw.answered⟩, le_refl _⟩
  | sleepIfIdle =>
    rw [State.next, State.sleepIfIdle] at hs
    split at hs <;> (try split_ifs at hs) <;> cases hs <;>
      exact .inr ⟨⟨hw.results, hw.call, hw.answered⟩, le_refl _⟩

lemma Waiting.exists_next (hw : Waiting done lba s) (ha : Awaited disk k lba s) :
    ∃ (e : Event UInt8) (s' : State Stage Disk), e.Ok Drq ∧
      s.next (readTask disk) k e = some s' ∧
      (e.isWork = true ∨ s.sleep = .masked ∧ s'.sleep = .awake) := by
  cases hp : polls k s.sys.phase with
  | false =>
    refine exists_work ha.inv (ha.inv.due.entered _ (task k) ?_ (ha.notified (.inl hp))) hp
    simpa [lives] using ha.live
  | true =>
    refine ⟨.act, ?_⟩
    rcases hph : s.sys.phase with _ | _ | e | ⟨e, t⟩
    · simp [polls, hph] at hp
    · simp [polls, hph] at hp
    · simp [polls, hph] at hp
    · obtain rfl : t = task k := by simpa [polls, hph] using hp
      have hnext : s.next (readTask disk) k .act = s.act e (poll s.stage s.source) := by
        simp [State.next, hph, readTask]
      have hcall := hw.call
      have hpoll := polls_poll s.stage s.source
      rw [hnext]
      generalize hst : s.stage = b at hpoll hcall
      generalize poll b s.source = act at hpoll
      cases hpoll
      case done => cases hcall
      case pend => exact ⟨_, trivial, by simp [State.act, Tasks.Sys.next, hph]; rfl, .inl rfl⟩
      all_goals exact ⟨_, trivial, rfl, .inl rfl⟩

/-- Either the read has returned, or it waits. -/
def Goes (disk : UInt32 → Sector) (lbas : List UInt32) (k : ℕ) (done : List (UInt32 × Sector))
    (lba : UInt32) (s : State Stage Disk) : Prop :=
  Runs (readTask disk) Drq k .call (.initial lbas) s ∧
    (done ++ [(lba, disk (addressed lba))] <+: s.source.results ∨ Waiting done lba s)

lemma returned_next {e : Event UInt8} (h : Runs (readTask disk) Drq k .call (.initial lbas) s)
    (hd : done <+: s.source.results) (hok : e.Ok Drq)
    (hs : s.next (readTask disk) k e = some s') : done <+: s'.source.results := by
  obtain ⟨-, hsame | ⟨m, -, hm⟩⟩ := (runs_inv h).1.next hok hs
  · have hsrc : s'.source = s.source := congrArg View.source hsame
    rwa [hsrc]
  · exact hd.trans (results_next hm)

lemma Goes.next {e : Event UInt8} (h : Goes disk lbas k done lba s) (hok : e.Ok Drq)
    (hs : s.next (readTask disk) k e = some s') : Goes disk lbas k done lba s' := by
  obtain ⟨hr, hret | hw⟩ := h
  · exact ⟨hr.step hok hs, .inl (returned_next hr hret hok hs)⟩
  · refine ⟨hr.step hok hs, ?_⟩
    rcases hw.next (hw.awaited hr) hs with hret | ⟨hw', -⟩
    · exact .inl hret
    · exact .inr hw'

/-- **An answered read returns its sector**, whatever happens, when enough work has been done. -/
lemma Goes.returns (h : Goes disk lbas k done lba s) {n : ℕ}
    (hs : Steps (State.next (readTask disk) k) (fun _ e => e.Ok Drq) Event.isWork s n s')
    (hn : 3 * s.sys.executor.taskQueue.length + 6 ≤ n) :
    done ++ [(lba, disk (addressed lba))] <+: s'.source.results := by
  obtain ⟨-, hret | hle⟩ := hs.variant (I := Goes disk lbas k done lba)
    (G := fun s => done ++ [(lba, disk (addressed lba))] <+: s.source.results) (μ := left k) h
    (fun _ _ _ hg hok hs => hg.next hok hs)
    (fun _ _ _ hg hret hok hs => returned_next hg.1 hret hok hs)
    (fun s e s' hg hne hok hs => by
      have hw := hg.2.resolve_left hne
      rcases hw.next (hw.awaited hg.1) hs with hret | ⟨-, hle⟩
      · exact .inl hret
      · exact .inr hle)
  · exact hret
  · have hpos := left_pos k s'
    have hbound := left_le k s
    omega

lemma Goes.exists_returns (h : Goes disk lbas k done lba s) :
    ∃ s', Reach (State.next (readTask disk) k) (fun _ e => e.Ok Drq) s s' ∧
      done ++ [(lba, disk (addressed lba))] <+: s'.source.results := by
  refine exists_reach_goal (I := Goes disk lbas k done lba)
    (fun s => 2 * left k s + if s.sleep = .masked then 1 else 0)
    (fun _ _ _ hg hok hs => hg.next hok hs) (fun s hg hne => ?_) h
  have hw := hg.2.resolve_left hne
  have ha := hw.awaited hg.1
  obtain ⟨e, s', hok, hs, hwork⟩ := hw.exists_next ha
  refine ⟨e, s', hok, hs, ?_⟩
  rcases hw.next ha hs with hret | ⟨-, hle⟩
  · exact .inl hret
  · right
    rcases hwork with hwork | ⟨hmasked, hawake⟩
    · rw [hwork, Bool.toNat_true] at hle
      split_ifs <;> omega
    · simp [hmasked, hawake]
      omega

lemma scheduled_of_answered (h : Runs (readTask disk) Drq k .call (.initial lbas) s)
    (hs : Suspended k s) (hst : inCall s.stage = [lba]) (hdev : s.source.device = []) :
    (task k).id ∈ s.sys.executor.taskQueue.map Task.id ∧ Complete s.source lba ∧
      s.sys.notified k = true := by
  have hw : Waiting s.source.results lba s := ⟨rfl, hst, hdev⟩
  have ha := hw.awaited h
  refine ⟨?_, ha.complete, ha.notified (.inl hs.2.1)⟩
  exact hs.mem_queue careful (by simp [protocol]) h ⟨lba, .inl (ha.asleep hs.2.1), ha.complete⟩

lemma Suspended.irq {status : UInt8} (hs : Suspended k s)
    (hn : s.next (readTask disk) k (.irq status) = some s') :
    Suspended k s' ∧ s'.stage = s.stage ∧
      ∃ wakes, answer disk status s.source = some (s'.source, wakes) := by
  obtain ⟨d, wakes, hi, hn⟩ := next_irq hn
  cases wakes with
  | false =>
    obtain rfl := Option.some.inj hn
    exact ⟨hs, rfl, _, hi⟩
  | true =>
    simp only [if_true, State.wake] at hn
    rcases hw : s.slot with _ | w <;> rw [hw] at hn
    · obtain rfl := Option.some.inj hn
      exact ⟨hs, rfl, _, hi⟩
    · obtain ⟨x, hx, rfl⟩ := Option.map_eq_some_iff.mp hn
      obtain rfl := wakeTask_eq_some hx
      exact ⟨hs, rfl, _, hi⟩

/-! ### Reads one after another -/

/-- **Reads one after another.** In every run in which the drive answers each command with the
data: the reads that have returned are the first ones, each with its own sector; a task that
waits for a read that is complete is in the queue; and a read that has been answered returns its
sector in every continuation with enough steps of the executor and the task, of which there is
one. The bound is three steps for each entry of the queue and six more. -/
theorem reads_return_own_sector (hlbas : ∀ lba ∈ lbas, lba.toNat < 2 ^ 28)
    (h : Runs (readTask disk) Drq k .call (.initial lbas) s) :
    (s.source.results =
        (lbas.take s.source.results.length).map fun lba => (lba, disk lba)) ∧
      (∀ lba, Suspended k s → inCall s.stage = [lba] → Complete s.source lba →
        (task k).id ∈ s.sys.executor.taskQueue.map Task.id) ∧
      ∀ lba, inCall s.stage = [lba] → s.source.device = [] →
        (∀ n s', Steps (State.next (readTask disk) k) (fun _ e => e.Ok Drq) Event.isWork s n s' →
          3 * s.sys.executor.taskQueue.length + 6 ≤ n →
          s.source.results ++ [(lba, disk lba)] <+: s'.source.results) ∧
        ∃ s', Reach (State.next (readTask disk) k) (fun _ e => e.Ok Drq) s s' ∧
          s.source.results ++ [(lba, disk lba)] <+: s'.source.results := by
  obtain ⟨-, hview⟩ := runs_inv h
  have hreads := reads_of_reach hview
  refine ⟨hreads.results hlbas, fun lba hs hst hc => ?_, fun lba hst hdev => ?_⟩
  · refine hs.mem_queue careful (by simp [protocol]) h ⟨lba, .inl ?_, hc⟩
    rcases stage_of_reach hview hs.2.1 with hcall | ⟨l, hl⟩
    · rw [show s.stage = _ from hcall] at hst
      cases hst
    · rw [show s.stage = _ from hl] at hst ⊢
      rw [List.singleton_inj.mp hst]
  · have hmem : lba ∈ lbas := by
      rw [← hreads.order]
      simp [State.view, hst]
    have hgoes : Goes disk lbas k s.source.results lba s := ⟨h, .inr ⟨rfl, hst, hdev⟩⟩
    have haddr := addressed_of_lt (hlbas lba hmem)
    refine ⟨fun n s' hs hn => ?_, ?_⟩
    · have hret := hgoes.returns hs hn
      rwa [haddr] at hret
    · have hret := hgoes.exists_returns
      rwa [haddr] at hret

lemma exists_waiting (p : UInt8 → Prop) :
    ∃ s, Runs (readTask numbered) p 0 .call (.initial [3]) s ∧ Suspended 0 s ∧
      inCall s.stage = [3] ∧ s.sys.executor.taskQueue = [] ∧ s.source.device.length = 1 ∧
      (∃ s', s.next (readTask numbered) 0 (.irq statusDrq) = some s') ∧
      ∃ s', s.next (readTask numbered) 0 (.irq statusErr) = some s' := by
  have h : Runs (readTask numbered) p 0 .call (.initial [3]) _ := runs_firstPoll _ _
  have h := Reach.step (e := Event.act) h trivial rfl
  have h := Reach.step (e := Event.act) h trivial rfl
  have h := Reach.step (e := Event.act) h trivial rfl
  have h := Reach.step (e := Event.act) h trivial rfl
  have h := Reach.step (e := Event.act) h trivial rfl
  exact ⟨_, h, ⟨rfl, rfl, fun e he => by cases he⟩, rfl, rfl, rfl, ⟨_, rfl⟩, ⟨_, rfl⟩⟩

lemma exists_second :
    ∃ s, Runs (readTask numbered) Drq 0 .call (.initial [3, 5]) s ∧ Suspended 0 s ∧
      inCall s.stage = [5] ∧ s.source.results.length = 1 ∧ s.source.device = [] ∧
      Complete s.source 5 := by
  have hdrq : Drq statusDrq := ⟨by decide, by decide⟩
  have h : Runs (readTask numbered) Drq 0 .call (.initial [3, 5]) _ := runs_firstPoll _ _
  have h := Reach.step (e := Event.act) h trivial rfl
  have h := Reach.step (e := Event.act) h trivial rfl
  have h := Reach.step (e := Event.act) h trivial rfl
  have h := Reach.step (e := Event.act) h trivial rfl
  have h := Reach.step (e := Event.act) h trivial rfl
  have h := Reach.step (e := Event.irq statusDrq) h hdrq rfl
  have h := Reach.step (e := Event.exec .pop) h trivial rfl
  have h := Reach.step (e := Event.exec .look) h trivial rfl
  -- the poll that takes the first sector asks for the second
  have h := Reach.step (e := Event.act) h trivial rfl
  have h := Reach.step (e := Event.act) h trivial rfl
  have h := Reach.step (e := Event.act) h trivial rfl
  have h := Reach.step (e := Event.act) h trivial rfl
  have h := Reach.step (e := Event.act) h trivial rfl
  have h := Reach.step (e := Event.act) h trivial rfl
  have h := Reach.step (e := Event.irq statusDrq) h hdrq rfl
  exact ⟨_, h, ⟨rfl, rfl, fun e he => by cases he⟩, rfl, rfl, rfl, rfl, rfl⟩

theorem reads_return_own_sector_second :
    ∃ s, Runs (readTask numbered) Drq 0 .call (.initial [3, 5]) s ∧ Suspended 0 s ∧
      s.source.results = [(3, numbered 3)] ∧
      (task 0).id ∈ s.sys.executor.taskQueue.map Task.id ∧
      ∃ s', Reach (State.next (readTask numbered) 0) (fun _ e => e.Ok Drq) s s' ∧
        [(3, numbered 3), (5, numbered 5)] <+: s'.source.results := by
  obtain ⟨s, h, hs, hcall, hlen, hdev, hcomp⟩ := exists_second
  obtain ⟨hres, hqueue, hret⟩ := reads_return_own_sector (by simp) h
  rw [hlen] at hres
  obtain ⟨s', hs', hpre⟩ := (hret 5 hcall hdev).2
  rw [hres] at hpre
  exact ⟨s, h, hs, hres, hqueue 5 hs hcall hcomp, s', hs', hpre⟩

/-! ### Entries left behind

An interrupt between the registration of the waker and the second look puts the id of the task
in the queue, and the second look then finds the sector. So a poll that makes many reads may
leave an entry for each. -/

section stale

variable {e : Task} {rest : List UInt32}

lemma device_free (h : Runs (readTask disk) Drq k .call (.initial lbas) s)
    (hst : s.stage = .call) : s.source.device = [] :=
  (reads_of_reach (runs_inv h).2).free (by simp [State.view, hst, inCall])

lemma next_act_eq (hp : s.sys.phase = .polling e (task k)) :
    s.next (readTask disk) k .act = s.act e (poll s.stage s.source) := by
  simp [State.next, hp, readTask]

lemma reach_recheck (h : Runs (readTask disk) Drq k .call (.initial lbas) s)
    (hp : s.sys.phase = .polling e (task k)) (hst : s.stage = .call)
    (hr : s.source.rest = lba :: rest) :
    Runs (readTask disk) Drq k .call (.initial lbas) { s with
      stage := .recheck lba, slot := some (task k), source := s.source.called lba rest } := by
  have hcache := (runs_inv h).1.register hp
  have h₁ : Runs (readTask disk) Drq k .call (.initial lbas)
      { s with stage := .check lba, source := s.source.called lba rest } := by
    refine h.step (e := .act) trivial ?_
    simp only [next_act_eq hp, hst, poll, hr]
    rfl
  have h₂ : Runs (readTask disk) Drq k .call (.initial lbas)
      { s with stage := .register lba, source := s.source.called lba rest } := by
    refine h₁.step (e := .act) trivial ?_
    have hnot : ¬ Complete (s.source.called lba rest) lba := by simp [Complete, Disk.called]
    rw [next_act_eq (by exact hp)]
    simp only [poll, look_of_not_complete hnot]
    rfl
  refine h₂.step (e := .act) trivial ?_
  rw [next_act_eq (by exact hp)]
  simp [poll, State.act, hcache]

lemma reach_stale (h : Runs (readTask disk) Drq k .call (.initial lbas) s)
    (hp : s.sys.phase = .polling e (task k)) (hst : s.stage = .call)
    (hr : s.source.rest = lba :: rest)
    (hq : s.sys.executor.taskQueue.length < Tasks.queueCapacity) :
    ∃ s', Runs (readTask disk) Drq k .call (.initial lbas) s' ∧
      s'.sys.phase = .polling e (task k) ∧ s'.stage = .call ∧ s'.source.rest = rest ∧
      s'.sys.executor.taskQueue.length = s.sys.executor.taskQueue.length + 1 := by
  have hdrq : Drq statusDrq := ⟨by decide, by decide⟩
  have hawake := (runs_inv h).1.awake hp
  have hfree := device_free h hst
  have hans : answer disk statusDrq (s.source.called lba rest) =
      some ((s.source.called lba rest).answered disk lba, true) :=
    answer_of_drq hdrq (by simp [Disk.called, hfree]) rfl
  have h₁ := reach_recheck h hp hst hr
  have h₂ := Reach.step (e := Event.irq statusDrq) h₁ hdrq
    (by simp [State.next, hawake, readTask, hans, State.wake, wakeTask, Executor.push, hq]; rfl)
  have h₃ := Reach.step (e := Event.act) h₂ trivial (by
    have hcomp : Complete ((s.source.called lba rest).answered disk lba) lba := ⟨rfl, rfl⟩
    rw [next_act_eq (by exact hp)]
    simp only [poll, look_of_complete hcomp]
    rfl)
  exact ⟨_, h₃, hp, rfl, rfl, by simp⟩

lemma exists_stale (n : ℕ) (hn : n ≤ 100) :
    ∃ s e, Runs (readTask numbered) Drq 0 .call (.initial (List.replicate 101 0)) s ∧
      s.sys.phase = .polling e (task 0) ∧ s.stage = .call ∧
      s.source.rest = List.replicate (101 - n) 0 ∧ s.sys.executor.taskQueue.length = n := by
  induction n with
  | zero =>
    exact ⟨_, task 0, runs_firstPoll _ _, rfl, rfl, rfl, rfl⟩
  | succ n ih =>
    obtain ⟨s, e, h, hp, hst, hr, hq⟩ := ih (by omega)
    rw [show 101 - n = (101 - (n + 1)) + 1 by omega, List.replicate_succ] at hr
    obtain ⟨s', h', hp', hst', hr', hq'⟩ :=
      reach_stale h hp hst hr (by rw [hq, Tasks.queueCapacity]; omega)
    exact ⟨s', e, h', hp', hst', hr', by rw [hq', hq]⟩

/-- Each of a hundred reads of one poll is answered before its second look. The interrupt for
the next one panics: the queue is full. -/
theorem read_101_panics : ∃ (lbas : List UInt32) (s : State Stage Disk),
    (∀ lba ∈ lbas, lba.toNat < 2 ^ 28) ∧ Runs (readTask numbered) Drq 0 .call (.initial lbas) s ∧
      s.source.device ≠ [] ∧ s.sleep = .awake ∧ s.sys.executor.taskQueue.length = 100 ∧
      ∀ status, Drq status → s.next (readTask numbered) 0 (.irq status) = none := by
  obtain ⟨s, e, h, hp, hst, hr, hq⟩ := exists_stale 100 (le_refl _)
  have hawake := (runs_inv h).1.awake hp
  have hfree := device_free h hst
  refine ⟨_, _, ?_, reach_recheck h hp hst hr, by simp [Disk.called], hawake, hq, ?_⟩
  · intro lba hlba
    rw [List.eq_of_mem_replicate hlba]
    decide
  · intro status hdrq
    have hans : answer numbered status (s.source.called 0 []) =
        some ((s.source.called 0 []).answered numbered 0, true) :=
      answer_of_drq hdrq (by simp [Disk.called, hfree]) rfl
    simp [State.next, hawake, readTask, hans, State.wake, wakeTask, Executor.push, hq,
      Tasks.queueCapacity]

end stale

/-! ### A drive that reports errors -/

/-- The drive answers with the data or with an error. -/
def HasAnswer (status : UInt8) : Prop :=
  status &&& statusDrq ≠ 0 ∨ status &&& statusErr ≠ 0

/-- It answers without an error. -/
def Clear (status : UInt8) : Prop := HasAnswer status ∧ status &&& statusErr = 0

lemma Clear.drq {status : UInt8} (h : Clear status) : Drq status :=
  ⟨h.2, h.1.resolve_right fun herr => herr h.2⟩

lemma Runs.drq (h : Runs (readTask disk) Clear k .call (.initial lbas) s) :
    Runs (readTask disk) Drq k .call (.initial lbas) s := by
  refine h.mono fun s e hok => ?_
  cases e with
  | irq status => exact Clear.drq hok
  | _ => trivial

lemma answer_of_err {status : UInt8} (herr : status &&& statusErr ≠ 0) {wakes : Bool}
    (h : answer disk status d = some (d', wakes)) :
    d'.driver.operationComplete = false ∧ wakes = false := by
  obtain ⟨cmd, -, hd', rfl⟩ := answer_cases h
  rw [hd']
  simp [onPrimaryAtaInterrupt, herr]

/-- **An answered read is not left behind, unless the answer is an error.** In every run in which
no answer is an error, a task that waits for a read that has been answered is in the queue, and
its read is complete. An answer that comes to a task that is not in the queue puts it there, or
completes its read and wakes it, exactly when it is not an error. -/
theorem answered_read_scheduled (h : Runs (readTask disk) Clear k .call (.initial lbas) s)
    (hs : Suspended k s) (hst : inCall s.stage = [lba]) :
    (s.source.device = [] → (task k).id ∈ s.sys.executor.taskQueue.map Task.id ∧
        Complete s.source lba ∧ s.sys.notified k = true) ∧
      ∀ status s', HasAnswer status → s.next (readTask disk) k (.irq status) = some s' →
        (task k).id ∉ s.sys.executor.taskQueue.map Task.id →
        ((task k).id ∈ s'.sys.executor.taskQueue.map Task.id ∨
            Complete s'.source lba ∧ s'.sys.notified k = true ↔
          status &&& statusErr = 0) := by
  have hdrq := Runs.drq h
  refine ⟨scheduled_of_answered hdrq hs hst,
    fun status s' hans hn hq => ⟨fun hsch => ?_, fun hc => ?_⟩⟩
  · by_contra herr
    obtain ⟨d, wakes, hi, hn⟩ := next_irq hn
    obtain ⟨hoc, rfl⟩ := answer_of_err herr hi
    obtain rfl := Option.some.inj hn
    rcases hsch with hmem | ⟨⟨hoc', -⟩, -⟩
    · exact hq hmem
    · rw [hoc] at hoc'
      cases hoc'
  · -- the answer ends the wait for the drive
    have hclear : Clear status := ⟨hans, hc⟩
    obtain ⟨hs', hst', wakes, hi⟩ := Suspended.irq hs hn
    have h' : Runs (readTask disk) Drq k .call (.initial lbas) s' :=
      hdrq.step (e := .irq status) hclear.drq hn
    have hdev : s'.source.device = [] := by
      obtain ⟨cmd, hcmd, -⟩ := answer_cases hi
      obtain ⟨-, ⟨hone, -⟩ | ⟨hnil, -⟩⟩ := (reads_of_reach (runs_inv hdrq).2).waits lba
        (by simp [State.view, hst])
      · exact (List.cons.inj (hcmd.symm.trans hone)).2
      · cases hcmd.symm.trans hnil
    exact .inl (scheduled_of_answered h' hs' (by rw [hst', hst]) hdev).1

theorem answered_read_scheduled_clear : ∃ s s',
    Runs (readTask numbered) Clear 0 .call (.initial [3]) s ∧ Suspended 0 s ∧
      s.next (readTask numbered) 0 (.irq statusDrq) = some s' ∧
      ((task 0).id ∈ s'.sys.executor.taskQueue.map Task.id ∨
        Complete s'.source 3 ∧ s'.sys.notified 0 = true) := by
  obtain ⟨s, h, hs, hst, hq, -, ⟨s', hs'⟩, -⟩ := exists_waiting Clear
  refine ⟨s, s', h, hs, hs', ?_⟩
  exact ((answered_read_scheduled h hs hst).2 statusDrq s' (.inl (by decide)) hs'
    (by simp [hq])).mpr (by decide)

/-- The answer is an error: the read is neither complete nor will it be looked at again. -/
theorem error_strands_read : ∃ s,
    Runs (readTask numbered) HasAnswer 0 .call (.initial [3]) s ∧ Suspended 0 s ∧
      inCall s.stage = [3] ∧ s.source.device = [] ∧
      ¬ ((task 0).id ∈ s.sys.executor.taskQueue.map Task.id ∨
        Complete s.source 3 ∧ s.sys.notified 0 = true) := by
  obtain ⟨s, h, hs, hst, hq, hlen, -, s', hs'⟩ := exists_waiting HasAnswer
  obtain ⟨hsus, hst', -⟩ := Suspended.irq hs hs'
  have h' : Runs (readTask numbered) HasAnswer 0 .call (.initial [3]) s' :=
    h.step (e := .irq statusErr) (.inr (by decide)) hs'
  obtain ⟨d, wakes, hi, hn⟩ := next_irq hs'
  obtain ⟨hoc, rfl⟩ := answer_of_err (by decide) hi
  obtain ⟨cmd, hcmd, -⟩ := answer_cases hi
  obtain rfl := Option.some.inj hn
  refine ⟨_, h', hsus, hst, ?_, ?_⟩
  · rw [hcmd, List.length_cons] at hlen
    exact List.length_eq_zero_iff.mp (Nat.succ.inj hlen)
  · rintro (hmem | ⟨⟨hoc', -⟩, -⟩)
    · simp [hq] at hmem
    · rw [hoc] at hoc'
      cases hoc'

end RustyOs.DiskRuns
