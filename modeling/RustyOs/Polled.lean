import RustyOs.Machine

/-!
A task that is polled, the slot it leaves its waker in, and the interrupts that wake it.

A poll that finds nothing to do returns, and nobody looks again until the task is woken. The
danger is an interrupt between the look and the return. The remedy is to look, to leave the
waker, and to look again; the rule at the end says why this is enough, in terms of the steps
of the poll and of what an interrupt may do.
-/

namespace RustyOs.Polled

open RustyOs.Machine

variable {β σ ι : Type}

/-- The next step of a poll, by the place it leads to and what it makes of the source. -/
inductive Act (β σ : Type)
  | go (b : β) (d : σ)
  /-- The waker of this poll is put in the slot. -/
  | register (b : β)
  /-- The slot is emptied. -/
  | take (b : β) (d : σ)
  /-- The poll returns; the next one begins at `b`. -/
  | pending (b : β)
  /-- The poll returns for the last time. -/
  | ready
  | panic

/-- A task, and the interrupts that change its source and may call the waker in the slot. -/
structure Poller (β σ ι : Type) where
  step : β → σ → Act β σ
  irq : ι → σ → Option (σ × Bool)

/-- All that matters of the world for one task. -/
structure View (β σ : Type) where
  stage : β
  source : σ
  /-- The task has been spawned and has not ended. -/
  live : Bool
  /-- A poll is in progress. -/
  polled : Bool
  /-- The slot holds the waker of the task. -/
  slot : Bool
  /-- The task has been spawned or woken since its last poll began. -/
  notified : Bool

def View.initial (b : β) (d : σ) : View β σ := ⟨b, d, false, false, false, false⟩

inductive Move (ι : Type)
  | spawn
  | wake
  | resume
  | act
  | irq (i : ι)

def View.act (v : View β σ) : Act β σ → Option (View β σ)
  | .go b d => some { v with stage := b, source := d }
  | .register b => some { v with stage := b, slot := true }
  | .take b d => some { v with stage := b, source := d, slot := false }
  | .pending b => some { v with stage := b, polled := false }
  | .ready => some { v with polled := false, live := false }
  | .panic => none

/-- An interrupt that calls the waker empties the slot. -/
def View.interrupt (v : View β σ) (d : σ) (wakes : Bool) : View β σ :=
  if wakes then { v with source := d, slot := false, notified := v.notified || v.slot }
  else { v with source := d }

def View.next (P : Poller β σ ι) (v : View β σ) : Move ι → Option (View β σ)
  | .spawn => some { v with live := true, notified := true }
  | .wake => some { v with notified := true }
  | .resume =>
    if v.live = true ∧ v.polled = false then some { v with polled := true, notified := false }
    else none
  | .act => if v.polled then v.act (P.step v.stage v.source) else none
  | .irq i => (P.irq i v.source).map fun r => v.interrupt r.1 r.2

/-- The interrupts are as promised. -/
def Move.Ok (p : ι → Prop) : Move ι → Prop
  | .irq i => p i
  | _ => True

/-! ### Looking again -/

/-- Whether a poll is in a stage in which its waker has been left, and in one in which it has
also looked again and found nothing. What it looks for is `due`. -/
structure Protocol (β σ : Type) where
  armed : β → Prop
  blocked : β → Prop
  due : β → σ → Prop

/-- **What a task owes.** It returns only after it has left its waker and then found nothing. An
interrupt that gives it something to find calls the waker. -/
structure Careful (P : Poller β σ ι) (A : Protocol β σ) : Prop where
  blocked_armed : ∀ b, A.blocked b → A.armed b
  go_armed : ∀ b d b' d', P.step b d = .go b' d' → A.armed b' → A.armed b
  go_blocked : ∀ b d b' d', P.step b d = .go b' d' → A.blocked b' → ¬ A.due b' d'
  register : ∀ b d b', P.step b d = .register b' → ¬ A.blocked b'
  take : ∀ b d b' d', P.step b d = .take b' d' → ¬ A.armed b'
  pending : ∀ b d b', P.step b d = .pending b' →
    A.blocked b ∧ ¬ A.armed b' ∧ (A.due b' d → A.due b d)
  ready : ∀ b d, P.step b d = .ready → ¬ A.armed b
  irq : ∀ i d d' wakes b, P.irq i d = some (d', wakes) → A.due b d' → A.due b d ∨ wakes = true

/-- What then holds: whoever relies on being woken has left the waker or has been woken, and
whoever missed something has been woken. -/
structure Watched (A : Protocol β σ) (v : View β σ) : Prop where
  asleep : v.polled = false → ¬ A.armed v.stage
  polled : v.polled = true → A.armed v.stage → v.slot = true ∨ v.notified = true
  idle : v.polled = false → v.live = true → v.slot = true ∨ v.notified = true
  blocked : v.polled = true → A.blocked v.stage → A.due v.stage v.source → v.notified = true
  due : v.polled = false → v.live = true → A.due v.stage v.source → v.notified = true

variable {P : Poller β σ ι} {A : Protocol β σ} {v v' : View β σ}

lemma Watched.notify (h : Watched A v) (live : Bool) :
    Watched A { v with live := live, notified := true } :=
  ⟨h.asleep, fun _ _ => .inr rfl, fun _ _ => .inr rfl, fun _ _ _ => rfl, fun _ _ _ => rfl⟩

lemma Watched.resume (h : Watched A v) (hc : Careful P A) (hp : v.polled = false) :
    Watched A { v with polled := true, notified := false } where
  asleep := by simp
  polled := fun _ ha => absurd ha (h.asleep hp)
  idle := by simp
  blocked := fun _ hb => absurd (hc.blocked_armed _ hb) (h.asleep hp)
  due := by simp

lemma Watched.act (h : Watched A v) (hc : Careful P A) (hp : v.polled = true)
    (hs : v.act (P.step v.stage v.source) = some v') : Watched A v' := by
  rcases ha : P.step v.stage v.source with ⟨b, d⟩ | b | ⟨b, d⟩ | b | _ | _ <;>
    rw [ha, View.act] at hs <;> cases hs
  · refine ⟨fun hf => ?_, fun _ hb => ?_, fun hf => ?_, fun _ hb hd => ?_, fun hf => ?_⟩
    · simp [hp] at hf
    · exact h.polled hp (hc.go_armed _ _ _ _ ha hb)
    · simp [hp] at hf
    · exact absurd hd (hc.go_blocked _ _ _ _ ha hb)
    · simp [hp] at hf
  · refine ⟨fun hf => ?_, fun _ _ => .inl rfl, fun hf => ?_, fun _ hb => ?_, fun hf => ?_⟩
    · simp [hp] at hf
    · simp [hp] at hf
    · exact absurd hb (hc.register _ _ _ ha)
    · simp [hp] at hf
  · have hb := hc.take _ _ _ _ ha
    refine ⟨fun _ => hb, fun _ h' => absurd h' hb, fun hf => ?_,
      fun _ h' => absurd (hc.blocked_armed _ h') hb, fun hf => ?_⟩
    · simp [hp] at hf
    · simp [hp] at hf
  · -- the poll returns: what held while it was blocked holds while the task sleeps
    obtain ⟨hb, hna, hdue⟩ := hc.pending _ _ _ ha
    refine ⟨fun _ => hna, by simp, fun _ _ => h.polled hp (hc.blocked_armed _ hb), by simp,
      fun _ _ hd => h.blocked hp hb (hdue hd)⟩
  · exact ⟨fun _ => hc.ready _ _ ha, by simp, by simp, by simp, by simp⟩

lemma Watched.interrupt (h : Watched A v) (hc : Careful P A) {i : ι} {d : σ} {wakes : Bool}
    (hi : P.irq i v.source = some (d, wakes)) : Watched A (v.interrupt d wakes) := by
  have hdue := hc.irq i v.source d wakes v.stage hi
  cases wakes with
  | false =>
    have hkeep : A.due v.stage d → A.due v.stage v.source := fun hd => by simpa using hdue hd
    exact ⟨h.asleep, h.polled, h.idle, fun hp hb hd => h.blocked hp hb (hkeep hd),
      fun hp hl hd => h.due hp hl (hkeep hd)⟩
  | true =>
    -- whoever had left the waker has now been woken
    have hwoken : v.slot = true ∨ v.notified = true → (v.notified || v.slot) = true := by
      rintro (hs | hn)
      · simp [hs]
      · simp [hn]
    exact ⟨h.asleep, fun hp ha => .inr (hwoken (h.polled hp ha)),
      fun hp hl => .inr (hwoken (h.idle hp hl)),
      fun hp hb _ => hwoken (h.polled hp (hc.blocked_armed _ hb)),
      fun hp hl _ => hwoken (h.idle hp hl)⟩

/-- **No wakeup is lost.** A careful task that is not in a poll and could go on has been woken. -/
theorem Careful.watched (hc : Careful P A) {ok : View β σ → Move ι → Prop} {b : β} {d : σ}
    (hb : ¬ A.armed b) (h : Reach (View.next P) ok (.initial b d) v) : Watched A v := by
  refine h.inv ⟨fun _ => hb, ?_, ?_, ?_, ?_⟩ fun v m v' hw _ hs => ?_
  · simp [View.initial]
  · simp [View.initial]
  · simp [View.initial]
  · simp [View.initial]
  cases m with
  | spawn =>
    obtain rfl := Option.some.inj hs
    exact hw.notify true
  | wake =>
    obtain rfl := Option.some.inj hs
    exact hw.notify v.live
  | resume =>
    rw [View.next] at hs
    split_ifs at hs with hp
    obtain rfl := Option.some.inj hs
    exact hw.resume hc hp.2
  | act =>
    rw [View.next] at hs
    split_ifs at hs with hp
    exact hw.act hc hp hs
  | irq i =>
    obtain ⟨⟨d, wakes⟩, hi, rfl⟩ := Option.map_eq_some_iff.mp hs
    exact hw.interrupt hc hi

/-- Between polls a task is where it began or where a poll has returned. -/
theorem rests_of_reach {R : β → Prop} {ok : View β σ → Move ι → Prop} {b : β} {d : σ}
    (hpend : ∀ b d b', P.step b d = .pending b' → R b') (hready : ∀ b d, P.step b d = .ready → R b)
    (hb : R b) (h : Reach (View.next P) ok (.initial b d) v) : v.polled = false → R v.stage := by
  refine h.inv (I := fun v => v.polled = false → R v.stage) (fun _ => hb) fun v m v' hv _ hs => ?_
  cases m with
  | spawn =>
    obtain rfl := Option.some.inj hs
    exact hv
  | wake =>
    obtain rfl := Option.some.inj hs
    exact hv
  | resume =>
    rw [View.next] at hs
    split_ifs at hs
    obtain rfl := Option.some.inj hs
    simp
  | act =>
    rw [View.next] at hs
    split_ifs at hs with hp
    rcases ha : P.step v.stage v.source with ⟨b, d⟩ | b | ⟨b, d⟩ | b | _ | _ <;>
      rw [ha, View.act] at hs <;> cases hs
    · simp [hp]
    · simp [hp]
    · simp [hp]
    · exact fun _ => hpend _ _ _ ha
    · exact fun _ => hready _ _ ha
  | irq i =>
    obtain ⟨⟨d, wakes⟩, -, rfl⟩ := Option.map_eq_some_iff.mp hs
    cases wakes with
    | false => exact hv
    | true => exact hv

end RustyOs.Polled
