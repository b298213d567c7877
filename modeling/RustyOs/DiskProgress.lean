import RustyOs.DiskRuns

/-!
A task that reads from the disk is never stuck.

A read may have to wait for the drive, for room in the queue of the executor and for its turn.
From every state of a run there is a way on: the tasks in the queue are polled until it is empty,
the drive answers, and the task is polled in its turn.
-/

namespace RustyOs.DiskProgress

open RustyOs.Tasks RustyOs.TaskQueue RustyOs.Machine RustyOs.Polled RustyOs.Kernel RustyOs.Ata
open RustyOs.AtaRuns RustyOs.DiskTask RustyOs.DiskRuns

/-! ### A task that has been woken is polled -/

section polled

variable {β σ ι : Type} {P : Poller β σ ι} {p : ι → Prop} {k : ℕ} {s s' : State β σ} {b : β} {d : σ}

/-- The events of the executor and the clock. -/
def isQuiet : Kernel.Event ι → Bool
  | .act => false
  | .irq _ => false
  | _ => true

/-- The task stands where it stood, and has been woken or is in a poll. -/
structure Called (k : ℕ) (b : β) (d : σ) (s : State β σ) : Prop where
  inv : Inv k s
  live : lives k s.sys = true
  turn : polls k s.sys.phase = true ∨ s.sys.notified k = true
  stage : s.stage = b
  source : s.source = d

lemma Called.next (h : Called k b d s) {e : Kernel.Event ι} (hok : e.Ok p) (hq : isQuiet e = true)
    (hs : s.next P k e = some s') : Called k b d s' := by
  have hinv := (h.inv.next hok hs).1
  cases e with
  | exec e =>
    obtain ⟨hne, x, hx, rfl⟩ := next_exec hs
    refine ⟨hinv, ?_, ?_, h.stage, h.source⟩
    · cases touch_next h.inv.due hne hx with
      | none hl hp hn => exact hl.trans h.live
      | spawn hl hp hn => exact hl
      | wake hl hp hn => exact hl.trans h.live
      | resume hs hl hp hn => exact hl
    · cases touch_next h.inv.due hne hx with
      | none hl hp hn => exact h.turn.imp hp.trans hn.trans
      | spawn hl hp hn => exact .inr hn
      | wake hl hp hn => exact .inr hn
      | resume hs hl hp hn => exact .inl hp
  | act => cases hq
  | irq i => cases hq
  | tick =>
    rw [State.next] at hs
    split_ifs at hs <;> obtain rfl := Option.some.inj hs <;>
      exact ⟨hinv, h.live, h.turn, h.stage, h.source⟩
  | sleepIfIdle =>
    rw [State.next, State.sleepIfIdle] at hs
    split at hs <;> (try split_ifs at hs) <;> cases hs <;>
      exact ⟨hinv, h.live, h.turn, h.stage, h.source⟩

lemma isQuiet_of_work (hp : polls k s.sys.phase = false) {e : Kernel.Event ι}
    (hs : s.next P k e = some s') (hw : e.isWork = true ∨ s.sleep = .masked) :
    isQuiet e = true := by
  cases e with
  | act =>
    obtain ⟨e, hpoll, -⟩ := next_act hs
    simp [hpoll, polls] at hp
  | irq i =>
    rcases hw with hw | hm
    · cases hw
    · simp [State.next, hm] at hs
  | _ => rfl

/-- The executor's work until the poll; unmasking the interrupts counts too. -/
def toTurn (k : ℕ) (s : State β σ) : ℕ := 2 * rank k s.sys + if s.sleep = .masked then 1 else 0

lemma Called.closer (h : Called k b d s) (hp : polls k s.sys.phase = false) :
    ∃ (e : Kernel.Event ι) (s' : State β σ), (e.Ok p ∧ isQuiet e = true) ∧
      s.next P k e = some s' ∧ (polls k s'.sys.phase = true ∨ toTurn k s' < toTurn k s) := by
  have hn : s.sys.notified k = true := h.turn.resolve_left (by simp [hp])
  have hent : Entered s.sys (task k).id :=
    h.inv.due.entered _ (task k) (by simpa [lives] using h.live) hn
  obtain ⟨e, s', hok, hs, hwork⟩ := exists_work (P := P) (p := p) h.inv hent hp
  have hq := isQuiet_of_work hp hs (hwork.imp_right And.left)
  refine ⟨e, s', ⟨hok, hq⟩, hs, ?_⟩
  rcases hwork with hwork | ⟨hmasked, hawake⟩
  · cases e with
    | exec e =>
      obtain ⟨-, x, hx, rfl⟩ := next_exec hs
      refine (rank_next h.inv.due h.live hn hx).imp And.right fun hle => ?_
      have hw : Kernel.isWork e = true := hwork
      rw [hw, Bool.toNat_true] at hle
      simp only [toTurn, reduceCtorEq, if_false]
      split_ifs <;> omega
    | act => cases hq
    | _ => cases hwork
  · right
    have hsys : s'.sys = s.sys := by
      cases e with
      | exec e => simp [State.next, hmasked] at hs
      | act => cases hq
      | irq i => cases hq
      | tick =>
        simp only [State.next, hmasked, reduceCtorEq, if_false] at hs
        rw [Option.some.inj hs]
      | sleepIfIdle =>
        simp only [State.next, State.sleepIfIdle, hmasked] at hs
        split_ifs at hs <;> obtain rfl := Option.some.inj hs <;> rfl
    simp [toTurn, hsys, hmasked, hawake]

/-- **A task that has been woken can be polled**, with nothing else done to it. -/
lemma exists_polled (h : Called k b d s) :
    ∃ s', Reach (State.next P k) (fun _ e => e.Ok p) s s' ∧ Called k b d s' ∧
      polls k s'.sys.phase = true := by
  have hcloser : ∀ s : State β σ, Called k b d s →
      ¬ (Called k b d s ∧ polls k s.sys.phase = true) →
      ∃ (e : Kernel.Event ι) (s' : State β σ), (e.Ok p ∧ isQuiet e = true) ∧
        s.next P k e = some s' ∧
        ((Called k b d s' ∧ polls k s'.sys.phase = true) ∨ toTurn k s' < toTurn k s) := by
    intro s hc hne
    have hp : polls k s.sys.phase = false := Bool.eq_false_iff.mpr fun hp => hne ⟨hc, hp⟩
    obtain ⟨e, s', hok, hs, hcase⟩ := hc.closer (P := P) (p := p) hp
    exact ⟨e, s', hok, hs, hcase.imp_left fun hp' => ⟨hc.next hok.1 hok.2 hs, hp'⟩⟩
  have hreach : ∃ s', Reach (State.next P k) (fun _ e => e.Ok p ∧ isQuiet e = true) s s' ∧
      Called k b d s' ∧ polls k s'.sys.phase = true :=
    exists_reach_goal (toTurn k) (fun _ _ _ hc hok hs => hc.next hok.1 hok.2 hs) hcloser h
  obtain ⟨s', hr, hg⟩ := hreach
  exact ⟨s', hr.mono fun _ _ hok => hok.1, hg⟩

end polled

/-! ### The drive can answer -/

variable {disk : UInt32 → Sector} {lbas : List UInt32} {lba : UInt32} {k : ℕ}
variable {s s' : State Stage Disk} {v v' : View Stage Disk}

/-- The work until the queue is empty and the interrupts are not masked, while the drive does not
answer. A poll of the task goes through its stages and returns. -/
def chores (k : ℕ) (s : State Stage Disk) : ℕ :=
  10 * s.sys.executor.taskQueue.length +
    (match s.sys.phase with
      | .outside => 3
      | .loop => 2
      | .popped _ => 9
      | .polling _ t =>
        if t = task k then
          match s.stage with
          | .call => 8
          | .check _ => 7
          | .register _ => 6
          | .recheck _ => 5
          | .pend _ => 4
        else 3) +
    match s.sleep with
    | .awake => 0
    | .masked => 2
    | .idle => 1
    | .halted => 0

/-- A read is with the drive. -/
structure Asked (disk : UInt32 → Sector) (lbas : List UInt32) (k : ℕ) (s : State Stage Disk) :
    Prop where
  runs : Runs (readTask disk) Drq k .call (.initial lbas) s
  device : s.source.device ≠ []

lemma Asked.call (h : Asked disk lbas k s) : ∃ lba, inCall s.stage = [lba] ∧
    s.source.device = [⟨.readSectors, setRegisters lba⟩] ∧
    s.source.driver.operationComplete = false := by
  have hreads := reads_of_reach (runs_inv h.runs).2
  have hfree := fun hnil => h.device (hreads.free hnil)
  rcases hin : inCall s.stage with _ | ⟨lba, _ | ⟨_, _⟩⟩
  · exact absurd hin hfree
  · obtain ⟨-, ⟨hdev, hoc⟩ | ⟨hnil, -⟩⟩ := hreads.waits lba (by simp [State.view, hin])
    · exact ⟨lba, rfl, hdev, hoc⟩
    · exact absurd hnil h.device
  · cases hst : s.stage <;> simp [hst, inCall] at hin

lemma Asked.not_complete (h : Asked disk lbas k s) (lba : UInt32) : ¬ Complete s.source lba := by
  obtain ⟨-, -, -, hoc⟩ := h.call
  intro hc
  rw [hc.1] at hoc
  cases hoc

/-- Only an interrupt ends the wait. -/
def noIrq : Kernel.Event UInt8 → Bool
  | .irq _ => false
  | _ => true

lemma Asked.next (h : Asked disk lbas k s) {e : Kernel.Event UInt8} (hok : e.Ok Drq)
    (hi : noIrq e = true) (hs : s.next (readTask disk) k e = some s') :
    Asked disk lbas k s' := by
  refine ⟨h.runs.step hok hs, ?_⟩
  cases e with
  | exec e =>
    obtain ⟨-, x, -, rfl⟩ := next_exec hs
    exact h.device
  | act =>
    obtain ⟨e, hp, hs⟩ := next_act hs
    have hpoll := polls_poll s.stage s.source
    change s.act e (poll s.stage s.source) = some s' at hs
    generalize poll s.stage s.source = act at hpoll hs
    generalize s.stage = b at hpoll
    cases hpoll with
    | returns hb hc => exact absurd hc (h.not_complete _)
    | call hr =>
      obtain rfl := Option.some.inj hs
      simp [Disk.called]
    | done | pend =>
      obtain ⟨x, -, rfl⟩ := Option.map_eq_some_iff.mp hs
      exact h.device
    | _ =>
      obtain rfl := Option.some.inj hs
      exact h.device
  | irq i => cases hi
  | tick =>
    rw [State.next] at hs
    split_ifs at hs <;> obtain rfl := Option.some.inj hs <;> exact h.device
  | sleepIfIdle =>
    rw [State.next, State.sleepIfIdle] at hs
    split at hs <;> (try split_ifs at hs) <;> cases hs <;> exact h.device

/-- The drive's interrupt finds room in the queue. -/
def Quiescent (s : State Stage Disk) : Prop :=
  s.sys.executor.taskQueue = [] ∧ (s.sleep = .awake ∨ s.sleep = .halted)

lemma Asked.act_closer (h : Asked disk lbas k s) {e : Task}
    (hp : s.sys.phase = .polling e (task k)) :
    ∃ s', s.next (readTask disk) k .act = some s' ∧ chores k s' < chores k s := by
  obtain ⟨lba, hin, -, -⟩ := h.call
  rw [next_act_eq hp]
  have hpoll := polls_poll s.stage s.source
  generalize hst : s.stage = b at hpoll hin
  generalize poll b s.source = act at hpoll
  cases hpoll with
  | done hr => cases hin
  | call hr => cases hin
  | returns hb hc => exact absurd hc (h.not_complete _)
  | first hc => exact ⟨_, rfl, by simp [chores, hp, hst]⟩
  | register => exact ⟨_, rfl, by simp [chores, hp, hst]⟩
  | second hc => exact ⟨_, rfl, by simp [chores, hp, hst]⟩
  | pend =>
    exact ⟨_, by simp [State.act, Tasks.Sys.next, hp]; rfl, by simp [chores, hp, hst]⟩

lemma Asked.awake_closer (h : Asked disk lbas k s) (hawake : s.sleep = .awake)
    (hq : s.sys.executor.taskQueue ≠ []) :
    ∃ (e : Kernel.Event UInt8) (s' : State Stage Disk), (e.Ok Drq ∧ noIrq e = true) ∧
      s.next (readTask disk) k e = some s' ∧ chores k s' < chores k s := by
  rcases hph : s.sys.phase with _ | _ | e | ⟨e, t⟩
  · exact ⟨.exec .enter, _, ⟨trivial, rfl⟩,
      by simp [State.next, hawake, hph, polls, Tasks.Sys.next]; rfl, by simp [chores, hph, hawake]⟩
  · obtain ⟨e, rest, hq⟩ := List.exists_cons_of_ne_nil hq
    exact ⟨.exec .pop, _, ⟨trivial, rfl⟩,
      by simp [State.next, hawake, hph, polls, Tasks.Sys.next, hq]; rfl,
      by simp [chores, hph, hawake, hq]; omega⟩
  · rcases ht : s.sys.executor.tasks e.id with _ | t
    · exact ⟨.exec .look, _, ⟨trivial, rfl⟩,
        by simp [State.next, hawake, hph, polls, Tasks.Sys.next, ht]; rfl,
        by simp [chores, hph, hawake]⟩
    · refine ⟨.exec .look, _, ⟨trivial, rfl⟩,
        by simp [State.next, hawake, hph, polls, Tasks.Sys.next, ht]; rfl, ?_⟩
      simp only [chores, hph, hawake, Executor.withWaker]
      split_ifs
      · split <;> omega
      · omega
  · by_cases ht : t = task k
    · subst ht
      obtain ⟨s', hs, hlt⟩ := h.act_closer hph
      exact ⟨.act, s', ⟨trivial, rfl⟩, hs, hlt⟩
    · exact ⟨.exec .pending, _, ⟨trivial, rfl⟩,
        by simp [State.next, hawake, hph, polls, Tasks.Sys.next, ht]; rfl,
        by simp [chores, hph, hawake, ht]⟩

lemma Asked.closer (h : Asked disk lbas k s) (hne : ¬ Quiescent s) :
    ∃ (e : Kernel.Event UInt8) (s' : State Stage Disk), (e.Ok Drq ∧ noIrq e = true) ∧
      s.next (readTask disk) k e = some s' ∧ chores k s' < chores k s := by
  have hinv := (runs_inv h.runs).1
  rcases hs : s.sleep with _ | _ | _ | _
  · exact h.awake_closer hs fun hq => hne ⟨hq, .inl hs⟩
  · refine ⟨.sleepIfIdle, ?_⟩
    by_cases hq : s.sys.executor.taskQueue = []
    · exact ⟨{ s with sleep := .idle }, ⟨trivial, rfl⟩,
        by simp [State.next, State.sleepIfIdle, hs, hq], by simp [chores, hs]⟩
    · exact ⟨{ s with sleep := .awake }, ⟨trivial, rfl⟩,
        by simp [State.next, State.sleepIfIdle, hs, hq], by simp [chores, hs]⟩
  · exact ⟨.sleepIfIdle, { s with sleep := .halted }, ⟨trivial, rfl⟩,
      by simp [State.next, State.sleepIfIdle, hs], by simp [chores, hs]⟩
  · exact absurd ⟨hinv.empty (.inr hs), .inr hs⟩ hne

lemma Asked.answers (h : Asked disk lbas k s) (hq : Quiescent s) :
    ∃ s', s.next (readTask disk) k (.irq statusDrq) = some s' ∧ s'.source.device = [] ∧
      s'.stage = s.stage ∧ s'.source.results = s.source.results := by
  obtain ⟨lba, -, hdev, hoc⟩ := h.call
  have hdrq : Drq statusDrq := ⟨by decide, by decide⟩
  have hans : answer disk statusDrq s.source = _ := answer_of_drq hdrq hdev hoc
  have hnext : s.next (readTask disk) k (.irq statusDrq) =
      State.wake { s with source := s.source.answered disk lba, sleep := .awake } := by
    simp [State.next, hq.2, readTask, hans]
  rw [hnext, State.wake]
  rcases hslot : s.slot with _ | w
  · exact ⟨_, rfl, rfl, rfl, rfl⟩
  · simp only [wakeTask, Executor.push, hq.1, List.length_nil, queueCapacity, Nat.zero_lt_succ,
      if_true]
    exact ⟨_, rfl, rfl, rfl, rfl⟩

/-- **The drive can always come to answer.** -/
lemma Asked.exists_answered (h : Asked disk lbas k s) :
    ∃ s', Reach (State.next (readTask disk) k) (fun _ e => e.Ok Drq) s s' ∧
      s'.source.device = [] ∧ inCall s'.stage ≠ [] := by
  have hreach : ∃ s', Reach (State.next (readTask disk) k)
      (fun _ e => e.Ok Drq ∧ noIrq e = true) s s' ∧ Asked disk lbas k s' ∧ Quiescent s' := by
    refine exists_reach_goal (I := Asked disk lbas k) (chores k)
      (fun _ _ _ hi hok hs => hi.next hok.1 hok.2 hs) (fun s hi hne => ?_) h
    obtain ⟨e, s', hok, hs, hlt⟩ := hi.closer fun hq => hne ⟨hi, hq⟩
    exact ⟨e, s', hok, hs, .inr hlt⟩
  obtain ⟨s₁, hr, hask, hq⟩ := hreach
  obtain ⟨s₂, hs, hdev, hst, -⟩ := hask.answers hq
  obtain ⟨lba, hin, -⟩ := hask.call
  refine ⟨s₂, (hr.mono fun _ _ hok => hok.1).step (e := .irq statusDrq) ⟨by decide, by decide⟩ hs,
    hdev, ?_⟩
  simp [hst, hin]

/-! ### The reads can all be made -/

/-- Between two reads a task that is not in a poll has just been spawned, or has not begun, or has
made all its reads. -/
structure Between (v : View Stage Disk) : Prop where
  fresh : v.polled = false → v.live = true → v.stage = .call → v.notified = true
  dead : v.live = false → v.stage = .call ∧ (v.source.results = [] ∨ v.source.rest = [])

lemma Between.act (hp : v.polled = true) (hl : v.live = true)
    (hs : v.act (poll v.stage v.source) = some v') : Between v' := by
  have hpoll := polls_poll v.stage v.source
  generalize poll v.stage v.source = act at hpoll hs
  generalize hst : v.stage = b at hpoll
  cases hpoll <;> rw [View.act] at hs <;> cases hs
  case done hrest => exact ⟨by simp, fun _ => ⟨hst, .inr hrest⟩⟩
  all_goals exact ⟨by simp [hp], by simp [hl]⟩

lemma Between.interrupt (h : Between v) {status : UInt8} {d : Disk} {wakes : Bool}
    (hi : answer disk status v.source = some (d, wakes)) : Between (v.interrupt d wakes) := by
  obtain ⟨cmd, -, hd, -⟩ := answer_cases hi
  have hdead : v.live = false → v.stage = .call ∧ (d.results = [] ∨ d.rest = []) := by
    rw [hd]
    exact h.dead
  cases wakes with
  | false => exact ⟨h.fresh, hdead⟩
  | true => exact ⟨fun hp hl hst => by simp [View.interrupt, h.fresh hp hl hst], hdead⟩

lemma between_of_reach (h : Reach (View.next (readTask disk)) (fun _ m => m.Ok Drq)
    (.initial .call (.initial lbas)) v) : Between v := by
  induction h with
  | start => exact ⟨by simp [View.initial], fun _ => ⟨rfl, .inl rfl⟩⟩
  | @step v v' m hr hok hs ih =>
    cases m with
    | spawn =>
      obtain rfl := Option.some.inj hs
      exact ⟨fun _ _ _ => rfl, by simp⟩
    | wake =>
      obtain rfl := Option.some.inj hs
      exact ⟨fun _ _ _ => rfl, ih.dead⟩
    | resume =>
      rw [View.next] at hs
      split_ifs at hs with hp
      obtain rfl := Option.some.inj hs
      exact ⟨by simp, by simp [hp.1]⟩
    | act =>
      rw [View.next] at hs
      split_ifs at hs with hp
      exact .act hp ((reads_of_reach hr).live (.inl hp)) hs
    | irq i =>
      obtain ⟨⟨d, wakes⟩, hi, rfl⟩ := Option.map_eq_some_iff.mp hs
      exact ih.interrupt hi

/-- All reads have returned. -/
def Finished (s : State Stage Disk) : Prop := s.stage = .call ∧ s.source.rest = []

lemma exists_more_inCall (h : Runs (readTask disk) Drq k .call (.initial lbas) s)
    (hin : inCall s.stage ≠ []) :
    ∃ s', Reach (State.next (readTask disk) k) (fun _ e => e.Ok Drq) s s' ∧
      s'.source.results ≠ [] ∧ s.source.results.length < s'.source.results.length := by
  have hanswered : ∃ s', Reach (State.next (readTask disk) k) (fun _ e => e.Ok Drq) s s' ∧
      s'.source.device = [] ∧ inCall s'.stage ≠ [] := by
    by_cases hdev : s.source.device = []
    · exact ⟨s, .start, hdev, hin⟩
    · exact Asked.exists_answered ⟨h, hdev⟩
  obtain ⟨s₁, hr, hdev, hin⟩ := hanswered
  obtain ⟨lba, hlba⟩ : ∃ lba, inCall s₁.stage = [lba] := by
    cases hst : s₁.stage <;> simp [hst, inCall] at hin ⊢
  have hgoes : Goes disk lbas k s₁.source.results lba s₁ := ⟨h.trans hr, .inr ⟨rfl, hlba, hdev⟩⟩
  obtain ⟨s₂, hr₂, hpre⟩ := hgoes.exists_returns
  have hlen := hpre.length_le
  have hmono : s.source.results <+: s₁.source.results := by
    refine hr.inv (I := fun s' => Runs (readTask disk) Drq k .call (.initial lbas) s' ∧
      s.source.results <+: s'.source.results) ⟨h, List.prefix_rfl⟩ ?_ |>.2
    exact fun _ _ _ hi hok hs => ⟨hi.1.step hok hs, returned_next hi.1 hi.2 hok hs⟩
  have hle := hmono.length_le
  rw [List.length_append, List.length_singleton] at hlen
  refine ⟨s₂, hr.trans hr₂, fun hnil => ?_, by omega⟩
  rw [hnil, List.length_nil] at hlen
  omega

lemma exists_more (h : Runs (readTask disk) Drq k .call (.initial lbas) s)
    (hl : lives k s.sys = true) (hne : ¬ Finished s) :
    ∃ s', Reach (State.next (readTask disk) k) (fun _ e => e.Ok Drq) s s' ∧
      s'.source.results ≠ [] ∧ s.source.results.length < s'.source.results.length := by
  by_cases hin : inCall s.stage = []
  swap
  · exact exists_more_inCall h hin
  have hst : s.stage = .call := by cases hst : s.stage <;> simp [hst, inCall] at hin ⊢
  obtain ⟨lba, rest, hrest⟩ := List.exists_cons_of_ne_nil fun hnil => hne ⟨hst, hnil⟩
  obtain ⟨hinv, hview⟩ := runs_inv h
  have hturn : polls k s.sys.phase = true ∨ s.sys.notified k = true := by
    cases hp : polls k s.sys.phase with
    | true => exact .inl rfl
    | false => exact .inr ((between_of_reach hview).fresh hp hl hst)
  obtain ⟨s₁, hr, hc, hp⟩ := exists_polled (P := readTask disk) (p := Drq)
    ⟨hinv, hl, hturn, hst, rfl⟩
  obtain ⟨e, hph⟩ : ∃ e, s₁.sys.phase = .polling e (task k) := by
    rcases hph : s₁.sys.phase with _ | _ | e | ⟨e, t⟩ <;> simp [polls, hph] at hp
    exact ⟨e, by rw [hp]⟩
  have hs : s₁.next (readTask disk) k .act = some
      { s₁ with stage := .check lba, source := s.source.called lba rest } := by
    simp only [next_act_eq hph, hc.stage, hc.source, poll, hrest]
    rfl
  have hr' := Reach.step (e := Kernel.Event.act) hr trivial hs
  obtain ⟨s₂, hr₂, hres, hlt⟩ := exists_more_inCall (h.trans hr') (by simp [inCall])
  exact ⟨s₂, hr'.trans hr₂, hres, hlt⟩

/-- **A task that reads is never stuck.** From every state in which it lives, all its reads can
return. -/
theorem exists_finished (h : Runs (readTask disk) Drq k .call (.initial lbas) s)
    (hl : lives k s.sys = true) :
    ∃ s', Reach (State.next (readTask disk) k) (fun _ e => e.Ok Drq) s s' ∧ Finished s' := by
  induction hn : lbas.length - s.source.results.length using Nat.strong_induction_on
    generalizing s with
  | _ n ih =>
    by_cases hne : Finished s
    · exact ⟨s, .start, hne⟩
    obtain ⟨s₁, hr, hres, hlt⟩ := exists_more h hl hne
    have h₁ := h.trans hr
    have hview := (runs_inv h₁).2
    have horder := congrArg List.length (reads_of_reach hview).order
    simp only [State.view, List.length_append, List.length_map] at horder
    cases hl₁ : lives k s₁.sys with
    | true =>
      obtain ⟨s₂, hr₂, hfin⟩ := ih _ (by omega) h₁ hl₁ rfl
      exact ⟨s₂, hr.trans hr₂, hfin⟩
    | false =>
      obtain ⟨hst, hrest⟩ := (between_of_reach hview).dead hl₁
      exact ⟨s₁, hr, hst, hrest.resolve_left hres⟩

end RustyOs.DiskProgress
