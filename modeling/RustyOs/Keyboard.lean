import RustyOs.Kernel

/-!
The keyboard task (`src/task/keyboard.rs`).

The interrupt handler puts scancodes in a queue and calls the waker (`add_scancode`); the task
`print_keypresses` makes the queue and then takes scancodes from it through `poll_next`, one
poll of the task running through as many calls of `poll_next` as find a scancode.
-/

namespace RustyOs.Keyboard

open RustyOs.Tasks RustyOs.TaskQueue RustyOs.Machine RustyOs.Polled RustyOs.Kernel

def queueCapacity : ℕ := 100

/-- The scancode queue once it has been made, with what went into it and what the stream has
returned. -/
structure Scancodes where
  queue : Option (List UInt8)
  accepted : List UInt8
  yielded : List UInt8

def Scancodes.initial : Scancodes := ⟨none, [], []⟩

/-- The queue after `add_scancode`, and whether it calls the waker. -/
def addScancode (scancode : UInt8) (s : Scancodes) : Scancodes × Bool :=
  match s.queue with
  | none => (s, false)
  | some q =>
    if q.length < queueCapacity then
      ({ s with queue := some (q ++ [scancode]), accepted := s.accepted ++ [scancode] }, true)
    else (s, false)

/-- Where the task stands: before `ScancodeStream::new`, or at a step of `poll_next`. -/
inductive Stage
  | new
  | pop
  | register
  | repop
  | take (scancode : UInt8)
  | pend
  deriving DecidableEq

/-- The steps of `print_keypresses`. After a scancode has been returned the task goes on with
the next call of `poll_next`. -/
def pollNext (stage : Stage) (s : Scancodes) : Act Stage Scancodes :=
  match stage with
  | .new =>
    match s.queue with
    | none => .go .pop { s with queue := some [] }
    | some _ => .panic
  | .pop =>
    match s.queue with
    | none => .panic
    | some [] => .go .register s
    | some (b :: q) => .go .pop { s with queue := some q, yielded := s.yielded ++ [b] }
  | .register => .register .repop
  | .repop =>
    match s.queue with
    | none => .panic
    | some [] => .go .pend s
    | some (b :: q) => .go (.take b) { s with queue := some q }
  | .take b => .take .pop { s with yielded := s.yielded ++ [b] }
  | .pend => .pending .pop

def printKeypresses : Poller Stage Scancodes UInt8 where
  step := pollNext
  irq := fun scancode s => some (addScancode scancode s)

/-! ### The protocol -/

/-- The waker has been left from the second pop on, and the poll is about to return when that
has found nothing. -/
def protocol : Protocol Stage Scancodes where
  armed := fun b => b = .repop ∨ b = .pend
  blocked := fun b => b = .pend
  due := fun _ s => ∃ b q, s.queue = some (b :: q)

lemma pollNext_go {b b' : Stage} {s s' : Scancodes} (h : pollNext b s = .go b' s') :
    (b = .new ∧ b' = .pop ∧ s.queue = none ∧ s' = { s with queue := some [] }) ∨
    (b = .pop ∧ b' = .register ∧ s' = s) ∨
    (b = .pop ∧ b' = .pop ∧ ∃ c q, s.queue = some (c :: q) ∧
      s' = { s with queue := some q, yielded := s.yielded ++ [c] }) ∨
    (b = .repop ∧ b' = .pend ∧ s.queue = some [] ∧ s' = s) ∨
    (∃ c q, b = .repop ∧ b' = .take c ∧ s.queue = some (c :: q) ∧
      s' = { s with queue := some q }) := by
  rcases hq : s.queue with _ | _ | ⟨c, q⟩ <;> cases b <;> simp_all [pollNext]

lemma pollNext_register {b b' : Stage} {s : Scancodes} (h : pollNext b s = .register b') :
    b = .register ∧ b' = .repop := by
  rcases hq : s.queue with _ | _ | ⟨c, q⟩ <;> cases b <;> simp_all [pollNext]

lemma pollNext_take {b b' : Stage} {s s' : Scancodes} (h : pollNext b s = .take b' s') :
    ∃ c, b = .take c ∧ b' = .pop ∧ s' = { s with yielded := s.yielded ++ [c] } := by
  rcases hq : s.queue with _ | _ | ⟨c, q⟩ <;> cases b <;> simp_all [pollNext]

lemma pollNext_pending {b b' : Stage} {s : Scancodes} (h : pollNext b s = .pending b') :
    b = .pend ∧ b' = .pop := by
  rcases hq : s.queue with _ | _ | ⟨c, q⟩ <;> cases b <;> simp_all [pollNext]

lemma pollNext_ne_ready (b : Stage) (s : Scancodes) : pollNext b s ≠ .ready := by
  rcases hq : s.queue with _ | _ | ⟨c, q⟩ <;> cases b <;> simp [pollNext, hq]

lemma addScancode_cases (c : UInt8) (s : Scancodes) :
    (addScancode c s = (s, false) ∨
      ∃ q, s.queue = some q ∧ addScancode c s =
        ({ s with queue := some (q ++ [c]), accepted := s.accepted ++ [c] }, true)) := by
  rcases hq : s.queue with _ | q
  · simp [addScancode, hq]
  · by_cases hlen : q.length < queueCapacity
    · right
      exact ⟨q, rfl, by simp [addScancode, hq, hlen]⟩
    · left
      simp [addScancode, hq, hlen]

lemma careful : Careful printKeypresses protocol where
  blocked_armed := fun b hb => .inr hb
  go_armed := fun b s b' s' h ha => by
    rcases pollNext_go h with ⟨-, rfl, -⟩ | ⟨-, rfl, -⟩ | ⟨-, rfl, -⟩ | ⟨rfl, -⟩ | ⟨c, q, rfl, -⟩
    · simp [protocol] at ha
    · simp [protocol] at ha
    · simp [protocol] at ha
    · exact .inl rfl
    · exact .inl rfl
  go_blocked := fun b s b' s' h hb => by
    obtain rfl : b' = .pend := hb
    rcases pollNext_go h with ⟨-, h', -⟩ | ⟨-, h', -⟩ | ⟨-, h', -⟩ | ⟨-, -, hq, rfl⟩ |
      ⟨c, q, -, h', -⟩
    · cases h'
    · cases h'
    · cases h'
    · rintro ⟨b, q, hbq⟩
      simp [hq] at hbq
    · cases h'
  register := fun b s b' h => by
    obtain ⟨-, rfl⟩ := pollNext_register h
    simp [protocol]
  take := fun b s b' s' h => by
    obtain ⟨c, -, rfl, -⟩ := pollNext_take h
    simp [protocol]
  pending := fun b s b' h => by
    obtain ⟨rfl, rfl⟩ := pollNext_pending h
    exact ⟨rfl, by simp [protocol], id⟩
  ready := fun b s h => absurd h (pollNext_ne_ready b s)
  irq := fun c s s' wakes b h hd => by
    have h' : addScancode c s = (s', wakes) := Option.some.inj h
    rcases addScancode_cases c s with hsame | ⟨q, -, hadd⟩
    · obtain ⟨rfl, -⟩ := Prod.mk.inj (hsame.symm.trans h')
      exact .inl hd
    · exact .inr (Prod.mk.inj (hadd.symm.trans h')).2.symm

/-! ### No scancode is lost -/

/-- The scancode that has been taken from the queue and is about to be returned. -/
def inHand : Stage → List UInt8
  | .take b => [b]
  | _ => []

/-- What was returned, what is in hand and what is in the queue make up what was accepted; and
the task that made the queue lives on. -/
structure Kept (v : View Stage Scancodes) : Prop where
  account : v.source.accepted =
    v.source.yielded ++ inHand v.stage ++ v.source.queue.getD []
  live : v.polled = true ∨ v.source.queue.isSome → v.live = true

variable {v v' : View Stage Scancodes}

lemma Kept.act (h : Kept v) (hp : v.polled = true)
    (hs : v.act (pollNext v.stage v.source) = some v') : Kept v' := by
  have hl := h.live (.inl hp)
  have hacc := h.account
  rcases ha : pollNext v.stage v.source with ⟨b, d⟩ | b | ⟨b, d⟩ | b | _ | _ <;>
    rw [ha, View.act] at hs <;> cases hs
  · refine ⟨?_, fun _ => hl⟩
    rcases pollNext_go ha with ⟨hb, rfl, hq, rfl⟩ | ⟨hb, rfl, rfl⟩ | ⟨hb, rfl, c, q, hq, rfl⟩ |
      ⟨hb, rfl, hq, rfl⟩ | ⟨c, q, hb, rfl, hq, rfl⟩
    · simpa [hb, hq, inHand] using hacc
    · simpa [hb, inHand] using hacc
    · simpa [hb, hq, inHand] using hacc
    · simpa [hb, inHand] using hacc
    · simpa [hb, hq, inHand] using hacc
  · obtain ⟨hb, rfl⟩ := pollNext_register ha
    exact ⟨by simpa [hb, inHand] using hacc, fun _ => hl⟩
  · obtain ⟨c, hb, rfl, rfl⟩ := pollNext_take ha
    exact ⟨by simpa [hb, inHand] using hacc, fun _ => hl⟩
  · obtain ⟨hb, rfl⟩ := pollNext_pending ha
    exact ⟨by simpa [hb, inHand] using hacc, fun _ => hl⟩
  · exact absurd ha (pollNext_ne_ready _ _)

lemma Kept.interrupt (h : Kept v) (c : UInt8) :
    Kept (v.interrupt (addScancode c v.source).1 (addScancode c v.source).2) := by
  rcases addScancode_cases c v.source with hsame | ⟨q, hq, hadd⟩
  · rw [hsame]
    exact ⟨h.account, h.live⟩
  · have hacc := h.account
    rw [hadd]
    refine ⟨?_, fun _ => h.live (.inr (by simp [hq]))⟩
    simp [View.interrupt, hacc, hq]

lemma kept_of_reach (h : Reach (View.next printKeypresses) (fun _ m => m.Ok fun _ => True)
    (.initial .new .initial) v) : Kept v := by
  refine h.inv ⟨rfl, by simp [View.initial, Scancodes.initial]⟩ fun v m v' hv _ hs => ?_
  cases m with
  | spawn =>
    obtain rfl := Option.some.inj hs
    exact ⟨hv.account, fun _ => rfl⟩
  | wake =>
    obtain rfl := Option.some.inj hs
    exact ⟨hv.account, hv.live⟩
  | resume =>
    rw [View.next] at hs
    split_ifs at hs with hp
    obtain rfl := Option.some.inj hs
    exact ⟨hv.account, fun _ => hp.1⟩
  | act =>
    rw [View.next] at hs
    split_ifs at hs with hp
    exact hv.act hp hs
  | irq c =>
    obtain rfl := Option.some.inj hs
    exact hv.interrupt c

variable {k : ℕ} {s : State Stage Scancodes}

/-- **No key is lost, and none is slept on.** Once the stream has been made, the accepted
scancodes are, in this order, those returned, the one in hand and those in the queue. While the
task waits with scancodes in the queue, its id is in the ready queue; so the processor only
halts when there are none. -/
theorem scancodes_kept (h : Runs printKeypresses (fun _ => True) k .new .initial s)
    {q : List UInt8} (hq : s.source.queue = some q) :
    s.source.accepted = s.source.yielded ++ inHand s.stage ++ q ∧
      (Suspended k s → q ≠ [] → (task k).id ∈ s.sys.executor.taskQueue.map Task.id) ∧
      (s.sleep = .idle ∨ s.sleep = .halted → q = []) := by
  obtain ⟨hinv, hview⟩ := runs_inv h
  have hkept := kept_of_reach hview
  have hqueue : Suspended k s → q ≠ [] → (task k).id ∈ s.sys.executor.taskQueue.map Task.id := by
    intro hs hne
    obtain ⟨c, q', rfl⟩ := List.exists_cons_of_ne_nil hne
    exact hs.mem_queue careful (by simp [protocol]) h ⟨c, q', hq⟩
  refine ⟨?_, hqueue, fun hsleep => ?_⟩
  · have hacc := hkept.account
    simpa [State.view, hq] using hacc
  · -- a halted processor is outside of all polls, with nothing in the ready queue
    have hout : s.sys.phase = .outside := hinv.outside (by rcases hsleep with h | h <;> simp [h])
    have hsus : Suspended k s :=
      ⟨hkept.live (.inr (by simp [State.view, hq])), by simp [hout, polls], by simp [hout]⟩
    by_contra hne
    have hmem := hqueue hsus hne
    rw [hinv.empty hsleep] at hmem
    cases hmem

/-- A key is pressed while the task waits. -/
theorem scancodes_kept_pressed : ∃ s, Runs printKeypresses (fun _ => True) 0 .new .initial s ∧
    s.source.queue = some [30] ∧ Suspended 0 s ∧ s.source.accepted = [30] ∧
      (task 0).id ∈ s.sys.executor.taskQueue.map Task.id := by
  have h : Runs printKeypresses (fun _ => True) 0 .new .initial _ := runs_firstPoll _ _
  have h := Reach.step (e := Event.act) h trivial rfl
  have h := Reach.step (e := Event.act) h trivial rfl
  have h := Reach.step (e := Event.act) h trivial rfl
  have h := Reach.step (e := Event.act) h trivial rfl
  have h := Reach.step (e := Event.act) h trivial rfl
  have h := Reach.step (e := Event.irq 30) h trivial rfl
  obtain ⟨hacc, hqueue, -⟩ := scancodes_kept h rfl
  refine ⟨_, h, rfl, ⟨rfl, rfl, fun e he => ?_⟩, hacc, hqueue ⟨rfl, rfl, fun e he => ?_⟩ ?_⟩
  · cases he
  · cases he
  · simp

end RustyOs.Keyboard
