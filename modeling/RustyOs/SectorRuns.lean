import RustyOs.DiskProgress
import RustyOs.SectorTask

/-!
A program that only reads, in a task, and the task that makes its reads one after the other.

The program is followed step by step by the task of `DiskTask`, given the sectors the program
reads when it is alone. What has been shown of that task then holds of the program: a read that
has been answered returns in time, and the program can always be brought to its end. No other task
uses the driver.
-/

namespace RustyOs.SectorRuns

open RustyOs.Tasks RustyOs.Machine RustyOs.Polled RustyOs.Kernel RustyOs.Ata RustyOs.AtaRuns
open RustyOs.BlockProg RustyOs.BlockProg.Prog RustyOs.CrashLogic RustyOs.SectorTask
open RustyOs.DiskTask (Drq readTask addressed)

variable {S E α : Type} {disk : UInt32 → Sector} {p q : Prog S UInt32 Sector E α}

/-- The same place in the task that makes the reads. -/
def place (lba : UInt32) : Wait → DiskTask.Stage
  | .check => .check lba
  | .register => .register lba
  | .recheck => .recheck lba
  | .pend => .pend lba

/-- The reads that have not returned. -/
def remaining (disk : UInt32 → Sector) : Stage S E α → List UInt32
  | .run q => q.reads (seen disk)
  | .read _ lba k => lba :: (k (seen disk lba)).reads (seen disk)
  | .write _ _ k => k.reads (seen disk)

/-- The two tasks stand at the same place, with the same driver and drive, and have the same
reads to make. -/
inductive Beside (disk : UInt32 → Sector) :
    Stage S E α → Drive → DiskTask.Stage → DiskTask.Disk → Prop
  | run {q : Prog S UInt32 Sector E α} {a : Driver} {cmds : List Command}
      {results : List (UInt32 × Sector)} (hq : ReadOnly q) :
      Beside disk (.run q) ⟨a, cmds, disk⟩ .call ⟨a, cmds, q.reads (seen disk), results⟩
  | read {w : Wait} {lba : UInt32} {k : Sector → Prog S UInt32 Sector E α} {a : Driver}
      {cmds : List Command} {results : List (UInt32 × Sector)} (hk : ∀ b, ReadOnly (k b)) :
      Beside disk (.read w lba k) ⟨a, cmds, disk⟩ (place lba w)
        ⟨a, cmds, (k (seen disk lba)).reads (seen disk), results⟩

/-- What the two tasks do next. -/
inductive Together (disk : UInt32 → Sector) (d : Drive) (D : DiskTask.Disk) :
    Act (Stage S E α) Drive → Act DiskTask.Stage DiskTask.Disk → Prop
  | ready : Together disk d D .ready .ready
  | go {b : Stage S E α} {d' : Drive} {B : DiskTask.Stage} {D' : DiskTask.Disk}
      (h : Beside disk b d' B D') : Together disk d D (.go b d') (.go B D')
  | register {b : Stage S E α} {B : DiskTask.Stage} (h : Beside disk b d B D) :
      Together disk d D (.register b) (.register B)
  | pending {b : Stage S E α} {B : DiskTask.Stage} (h : Beside disk b d B D) :
      Together disk d D (.pending b) (.pending B)

variable {b b' : Stage S E α} {d d' : Drive} {B B' : DiskTask.Stage} {D D' : DiskTask.Disk}

lemma look_together {w w' : Wait} {lba : UInt32} {k : Sector → Prog S UInt32 Sector E α}
    (hs : Stands disk p (.read w lba k) d) (h : Beside disk (.read w lba k) d B D) :
    Together disk d D (lookRead w' lba k d) (DiskTask.look lba (place lba w') D) := by
  cases h with
  | @read _ _ _ a cmds results hk =>
    by_cases hc : a.operationComplete = true ∧ a.pendingLba = lba
    · have hbuf : a.sectorBuffer = seen disk lba := by
        cases hs with
        | asked hq hdisk hlba hcmd hoc =>
          rw [hc.1] at hoc
          cases hoc
        | answered hq hdisk hlba hfree hbuf => exact hbuf hc.1
      have hcheck : checkRead lba a = _ := if_pos hc
      simp only [lookRead, DiskTask.look, hcheck, hbuf]
      exact .go (.run (hk _))
    · have hcheck : checkRead lba a = _ := if_neg hc
      simp only [lookRead, DiskTask.look, hcheck]
      exact .go (.read hk)

lemma Beside.poll_read {w : Wait} {lba : UInt32} {k : Sector → Prog S UInt32 Sector E α}
    (h : Beside disk (.read w lba k) d B D) (hs : Stands disk p (.read w lba k) d) :
    Together disk d D (poll (.read w lba k) d) (DiskTask.poll B D) := by
  have hlook : ∀ w', Together disk d D (lookRead w' lba k d) (DiskTask.look lba (place lba w') D) :=
    fun w' => look_together hs h
  cases h with
  | read hk =>
    cases w with
    | check => exact hlook .register
    | register => exact .register (.read hk)
    | recheck => exact hlook .pend
    | pend => exact .pending (.read hk)

/-- **The tasks go on together**, unless the program gives up. -/
lemma Beside.poll (h : Beside disk b d B D) (hs : Stands disk p b d) (hb : b ≠ .run .abort) :
    Together disk d D (SectorTask.poll b d) (DiskTask.poll B D) := by
  cases h with
  | @run q a cmds results hq =>
    cases q with
    | ret x => exact .ready
    | raise e => exact .ready
    | abort => exact absurd rfl hb
    | read s lba k => exact .go (.read hq)
    | write s lba data k => exact hq.elim
  | read hk => exact (Beside.read hk).poll_read hs

lemma Beside.answer (h : Beside disk b d B D) (hs : Stands disk p b d) (i : UInt8 × Words) :
    (SectorTask.answer i d = none ∧ DiskTask.answer disk i.1 D = none) ∨
      ∃ d' D' wakes, SectorTask.answer i d = some (d', wakes) ∧
        DiskTask.answer disk i.1 D = some (D', wakes) ∧ Beside disk b d' B D' := by
  cases h with
  | run hq =>
    cases hs with
    | run hq' hdisk hfree hoc =>
      left
      obtain rfl := hfree
      exact ⟨rfl, rfl⟩
  | read hk =>
    cases hs with
    | asked hq hdisk hlba hcmd hoc =>
      right
      obtain rfl := hcmd
      exact ⟨_, _, _, rfl, rfl, .read hk⟩
    | answered hq hdisk hlba hfree hbuf =>
      left
      obtain rfl := hfree
      exact ⟨rfl, rfl⟩

/-! ### Under the executor -/

/-- The kernel with the one task and with the other. -/
structure Alike (disk : UInt32 → Sector) (s : State (Stage S E α) Drive)
    (t : State DiskTask.Stage DiskTask.Disk) : Prop where
  sys : t.sys = s.sys
  sleep : t.sleep = s.sleep
  slot : t.slot = s.slot
  task : Beside disk s.stage s.source t.stage t.source

/-- The same event for the other task. -/
def event : Kernel.Event (UInt8 × Words) → Kernel.Event UInt8
  | .exec e => .exec e
  | .act => .act
  | .irq i => .irq i.1
  | .tick => .tick
  | .sleepIfIdle => .sleepIfIdle

variable {n : ℕ} {s s' : State (Stage S E α) Drive} {t t' : State DiskTask.Stage DiskTask.Disk}

lemma Alike.act (h : Alike disk s t) (e : Task) {act : Act (Stage S E α) Drive}
    {act' : Act DiskTask.Stage DiskTask.Disk}
    (hact : Together disk s.source t.source act act') :
    Option.Rel (Alike disk) (s.act e act) (t.act e act') := by
  cases hact with
  | ready =>
    simp only [State.act, h.sys]
    cases s.sys.next .ready with
    | none => exact .none
    | some x => exact .some ⟨rfl, h.sleep, h.slot, h.task⟩
  | go hb => exact .some ⟨h.sys, h.sleep, h.slot, hb⟩
  | register hb => exact .some ⟨h.sys, h.sleep, by simp only [h.sys], hb⟩
  | pending hb =>
    simp only [State.act, h.sys]
    cases s.sys.next .pending with
    | none => exact .none
    | some x => exact .some ⟨rfl, h.sleep, h.slot, hb⟩

lemma Alike.wake (h : Alike disk s t) : Option.Rel (Alike disk) s.wake t.wake := by
  simp only [State.wake, h.slot, h.sys]
  rcases s.slot with _ | w
  · exact .some h
  · dsimp only
    cases TaskQueue.wakeTask s.sys w with
    | none => exact .none
    | some x => exact .some ⟨rfl, h.sleep, rfl, h.task⟩

/-- **The two kernels step together.** -/
lemma Alike.next (h : Alike disk s t) (hs : Stands disk p s.stage s.source)
    (e : Kernel.Event (UInt8 × Words)) (hb : e = .act → s.stage ≠ .run .abort) :
    Option.Rel (Alike disk) (s.next sectorTask n e) (t.next (readTask disk) n (event e)) := by
  cases e with
  | exec e =>
    simp only [State.next, event, h.sys, h.sleep]
    split_ifs
    · cases s.sys.next e with
      | none => exact .none
      | some x => exact .some ⟨rfl, rfl, h.slot, h.task⟩
    · exact .none
  | act =>
    simp only [State.next, event, h.sys]
    rcases s.sys.phase with _ | _ | e | ⟨e, x⟩
    · exact .none
    · exact .none
    · exact .none
    · dsimp only
      split_ifs
      · exact h.act e (h.task.poll hs (hb rfl))
      · exact .none
  | irq i =>
    simp only [State.next, event, h.sleep]
    split_ifs
    · rcases h.task.answer hs i with ⟨hn, hn'⟩ | ⟨d, D, wakes, he, he', hbeside⟩
      · simp only [sectorTask, readTask, hn, hn']
        exact .none
      · simp only [sectorTask, readTask, he, he']
        cases wakes with
        | false => exact .some ⟨h.sys, rfl, h.slot, hbeside⟩
        | true => exact Alike.wake ⟨h.sys, rfl, h.slot, hbeside⟩
    · exact .none
  | tick =>
    simp only [State.next, event, h.sleep]
    split_ifs
    · exact .some ⟨h.sys, rfl, h.slot, h.task⟩
    · exact .some h
  | sleepIfIdle =>
    simp only [State.next, event, State.sleepIfIdle, h.sleep, h.sys]
    rcases s.sleep with _ | _ | _ | _
    · dsimp only
      split_ifs
      · exact .some ⟨rfl, rfl, h.slot, h.task⟩
      · exact .none
    · dsimp only
      split_ifs <;> exact .some ⟨rfl, rfl, h.slot, h.task⟩
    · exact .some ⟨rfl, rfl, h.slot, h.task⟩
    · exact .none

/-- The program as a task, with a drive that answers each command with the data. -/
abbrev ProgRuns (p : Prog S UInt32 Sector E α) (disk : UInt32 → Sector) (n : ℕ) :
    State (Stage S E α) Drive → Prop :=
  Runs sectorTask (fun i => Drq i.1) n (.run p) (.initial disk)

lemma ProgRuns.stands (h : ProgRuns p disk n s) : Stands disk p s.stage s.source :=
  stands_of_reach (runs_inv h).2

lemma next_act_abort (hb : s.stage = .run .abort) : s.next sectorTask n .act = none := by
  simp only [State.next, hb]
  rcases s.sys.phase with _ | _ | e | ⟨e, t⟩
  · rfl
  · rfl
  · rfl
  · dsimp only
    split_ifs
    · rfl
    · rfl

lemma Alike.forward (h : Alike disk s t) (hr : ProgRuns p disk n s)
    {e : Kernel.Event (UInt8 × Words)} (hs : s.next sectorTask n e = some s') :
    ∃ t', t.next (readTask disk) n (event e) = some t' ∧ Alike disk s' t' := by
  have hb : e = .act → s.stage ≠ .run .abort := by
    rintro rfl hb
    rw [next_act_abort hb] at hs
    cases hs
  have hrel := h.next (n := n) hr.stands e hb
  rw [hs] at hrel
  generalize t.next (readTask disk) n (event e) = o at hrel
  cases hrel with
  | some h' => exact ⟨_, rfl, h'⟩

/-- An event of the other task, given to the program. -/
def asked : Kernel.Event UInt8 → Kernel.Event (UInt8 × Words)
  | .exec e => .exec e
  | .act => .act
  | .irq status => .irq (status, fun _ => 0)
  | .tick => .tick
  | .sleepIfIdle => .sleepIfIdle

lemma event_asked (e : Kernel.Event UInt8) : event (asked e) = e := by cases e <;> rfl

lemma ok_event {e : Kernel.Event (UInt8 × Words)} (h : e.Ok fun i => Drq i.1) :
    (event e).Ok Drq := by
  cases e with
  | irq i => exact h
  | _ => trivial

lemma ok_asked {e : Kernel.Event UInt8} (h : e.Ok Drq) : (asked e).Ok fun i => Drq i.1 := by
  cases e with
  | irq status => exact h
  | _ => trivial

lemma isWork_event (e : Kernel.Event (UInt8 × Words)) : (event e).isWork = e.isWork := by
  cases e <;> rfl

lemma Alike.back (h : Alike disk s t) (hr : ProgRuns p disk n s) {e : Kernel.Event UInt8}
    (hs : t.next (readTask disk) n e = some t') :
    s.stage = .run .abort ∨
      ∃ s', s.next sectorTask n (asked e) = some s' ∧ Alike disk s' t' := by
  by_cases hb : s.stage = .run .abort
  · exact .inl hb
  right
  have hrel := h.next (n := n) hr.stands (asked e) fun _ => hb
  rw [event_asked, hs] at hrel
  generalize s.next sectorTask n (asked e) = o at hrel
  cases hrel with
  | some h' => exact ⟨_, rfl, h'⟩

/-- **The program is followed in every run.** -/
lemma exists_alike (hp : ReadOnly p) (h : ProgRuns p disk n s) :
    ∃ t, Runs (readTask disk) Drq n .call (.initial (p.reads (seen disk))) t ∧ Alike disk s t := by
  induction h with
  | start => exact ⟨_, .start, rfl, rfl, rfl, .run hp⟩
  | step hr hok hs ih =>
    obtain ⟨t, ht, halike⟩ := ih
    obtain ⟨t', hs', halike'⟩ := halike.forward hr hs
    exact ⟨t', ht.step (ok_event hok) hs', halike'⟩

lemma Alike.steps (h : Alike disk s t) (hr : ProgRuns p disk n s) {m : ℕ}
    (hs : Steps (State.next sectorTask n) (fun _ e => e.Ok fun i => Drq i.1) Event.isWork s m s') :
    ProgRuns p disk n s' ∧ ∃ t', Steps (State.next (readTask disk) n) (fun _ e => e.Ok Drq)
      Event.isWork t m t' ∧ Alike disk s' t' := by
  induction hs with
  | start => exact ⟨hr, t, .start, h⟩
  | step _ hok hs ih =>
    obtain ⟨hr', t', ht, halike⟩ := ih
    obtain ⟨t'', hs', halike'⟩ := halike.forward hr' hs
    refine ⟨hr'.step hok hs, t'', ?_, halike'⟩
    rw [← isWork_event]
    exact ht.step (ok_event hok) hs'

lemma Alike.reach (h : Alike disk s t) (hr : ProgRuns p disk n s)
    (ht : Reach (State.next (readTask disk) n) (fun _ e => e.Ok Drq) t t') :
    ∃ s', Reach (State.next sectorTask n) (fun _ e => e.Ok fun i => Drq i.1) s s' ∧
      (s'.stage = .run .abort ∨ Alike disk s' t') := by
  induction ht with
  | start => exact ⟨s, .start, .inr h⟩
  | step _ hok hs ih =>
    obtain ⟨s', hr', hb | halike⟩ := ih
    · exact ⟨s', hr', .inl hb⟩
    rcases halike.back (hr.trans hr') hs with hb | ⟨s'', hs', halike'⟩
    · exact ⟨s', hr', .inl hb⟩
    · exact ⟨s'', hr'.step (ok_asked hok) hs', .inr halike'⟩

lemma Beside.remaining_eq (h : Beside disk b d B D) :
    remaining disk b = DiskTask.inCall B ++ D.rest := by
  cases h with
  | run hq => rfl
  | @read w _ _ _ _ _ hk => cases w <;> rfl

lemma length_remaining (h : Alike disk s t)
    (ht : Runs (readTask disk) Drq n .call (.initial (p.reads (seen disk))) t) :
    t.source.results.length + (remaining disk s.stage).length = (p.reads (seen disk)).length := by
  have horder := congrArg List.length (DiskTask.reads_of_reach (runs_inv ht).2).order
  simp only [State.view, List.length_append, List.length_map] at horder
  rw [h.task.remaining_eq, List.length_append]
  omega

lemma Beside.waiting {w : Wait} {lba : UInt32} {k : Sector → Prog S UInt32 Sector E α}
    (h : Beside disk (.read w lba k) d B D) :
    DiskTask.inCall B = [lba] ∧ D.device = d.device := by
  cases h with
  | read hk => exact ⟨by cases w <;> rfl, rfl⟩

lemma result_of_reads_nil (hq : ReadOnly q) (hnil : q.reads (seen disk) = []) :
    ∃ r, q.result? = some r := by
  cases q with
  | read s lba k => cases hnil
  | write s lba data k => exact hq.elim
  | _ => exact ⟨_, rfl⟩

lemma Beside.finished (h : Beside disk b d B D) (hB : B = .call) (hrest : D.rest = []) :
    ∃ q r, b = .run q ∧ q.result? = some r := by
  cases h with
  | @run q _ _ _ hq =>
    obtain ⟨r, hr⟩ := result_of_reads_nil hq hrest
    exact ⟨q, r, rfl, hr⟩
  | @read w _ _ _ _ _ hk => cases w <;> cases hB

lemma ProgRuns.result (h : ProgRuns p disk n s) (hs : s.stage = .run q) {r : Res E α}
    (hr : q.result? = some r) : q.result? = some (exec p (seen disk)).1 := by
  have hst := h.stands
  rw [hs] at hst
  rw [hr, (hst.returned hr).1]

/-- **A program that only reads comes to its end.** In every run in which no other task uses the
driver and the drive answers each command with the data: a read that has been answered returns in
every continuation with enough steps of the executor and the task, three for each entry of the queue
and six more; and as long as the task lives, there is a continuation in which the program returns,
with the result it has alone. -/
theorem readOnly_completes (hp : ReadOnly p) (h : ProgRuns p disk n s) :
    (∀ w lba k, s.stage = .read w lba k → s.source.device = [] → ∀ m s',
        Steps (State.next sectorTask n) (fun _ e => e.Ok fun i => Drq i.1) Event.isWork s m s' →
        3 * s.sys.executor.taskQueue.length + 6 ≤ m →
        (remaining disk s'.stage).length < (remaining disk s.stage).length) ∧
      (lives n s.sys = true → ∃ s' q,
        Reach (State.next sectorTask n) (fun _ e => e.Ok fun i => Drq i.1) s s' ∧
          s'.stage = .run q ∧ q.result? = some (exec p (seen disk)).1) := by
  obtain ⟨t, ht, halike⟩ := exists_alike hp h
  refine ⟨fun w lba k hst hdev m s' hs hm => ?_, fun hl => ?_⟩
  · obtain ⟨hr', t', hsteps, halike'⟩ := halike.steps h hs
    obtain ⟨hin, hcmds⟩ := (hst ▸ halike.task).waiting
    have hgoes : DiskRuns.Goes disk (p.reads (seen disk)) n t.source.results lba t :=
      ⟨ht, .inr ⟨rfl, hin, hcmds.trans hdev⟩⟩
    have hret := hgoes.returns hsteps (by rw [halike.sys]; exact hm)
    have hlen := hret.length_le
    have hbefore := length_remaining halike ht
    have hafter := length_remaining halike' (ht.trans hsteps.reach)
    rw [List.length_append, List.length_singleton] at hlen
    omega
  · obtain ⟨t', hreach, hfin⟩ := DiskProgress.exists_finished ht (by rw [halike.sys]; exact hl)
    obtain ⟨s', hr, hb | halike'⟩ := halike.reach h hreach
    · exact ⟨s', _, hr, hb, ProgRuns.result (h.trans hr) hb rfl⟩
    · obtain ⟨q, r, hq, hres⟩ := halike'.task.finished hfin.1 hfin.2
      exact ⟨s', q, hr, hq, ProgRuns.result (h.trans hr) hq hres⟩

/-- A program of one read, when its first poll has begun. -/
theorem readOnly_completes_read : ∃ s s' q, ProgRuns oneRead numbered 0 s ∧
    Reach (State.next sectorTask 0) (fun _ e => e.Ok fun i => Drq i.1) s s' ∧
      s'.stage = .run q ∧ q.result? = some (.ok (numbered 3)) := by
  have h : ProgRuns oneRead numbered 0 _ := runs_firstPoll _ _
  have hp : ReadOnly oneRead := fun b => trivial
  obtain ⟨s', q, hr, hst, hres⟩ := (readOnly_completes hp h).2 rfl
  rw [exec_oneRead] at hres
  exact ⟨_, s', q, h, hr, hst, hres⟩

end RustyOs.SectorRuns
