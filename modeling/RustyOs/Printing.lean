import RustyOs.Masking
import RustyOs.VgaBuffer

/-!
Printing, and the other locks of the kernel (`src/vga_buffer.rs`, `src/serial.rs`,
`src/interrupts.rs`, `src/lib.rs`).

There are four spin locks: of the screen, of the serial port, of the interrupt controllers and of
the global allocator. The two functions `_print` hold theirs with interrupts off. The lock of
the controllers is taken by `init` before interrupts are turned on, and by the handlers. The lock
of the allocator is taken with interrupts as they are; a handler takes it only if it wakes a task
and drops the last reference to its waker, which then is freed.

`without_interrupts` of the crate `x86_64` is a parameter, a guard that does what is documented, and
so is the way numbers are shown.
-/

namespace RustyOs.Printing

open RustyOs.Machine RustyOs.Masking RustyOs.VgaBuffer

inductive Lock
  | writer
  | serial1
  | pics
  | allocator
  deriving DecidableEq

/-- What is done under a lock. -/
inductive Item
  | byte (b : UInt8)
  | initializePics
  | notifyEndOfInterrupt (id : UInt8)
  /-- An access to the lists of the allocator. -/
  | access
  deriving DecidableEq

/-- The bytes of a message. -/
def message (s : String) : List Item := (Writer.bytes s).map .byte

/-- `_print`, of `vga_buffer` and of `serial`: the message goes out under `without_interrupts`
and the lock. -/
def printOn (lock : Lock) (s : String) : Job Lock Item := .guarded lock (message s)

def print (s : String) : Job Lock Item := printOn .writer s
def println (s : String) : Job Lock Item := print (s ++ "\n")
def serialPrint (s : String) : Job Lock Item := printOn .serial1 s

/-- `alloc` or `dealloc` of the global allocator. -/
def useAllocator : Job Lock Item := .bare .allocator [.access]

def notifyEndOfInterrupt (id : UInt8) : Job Lock Item := .bare .pics [.notifyEndOfInterrupt id]

/-! ### The program -/

/-- What the kernel does outside of handlers. -/
inductive Call
  | print (s : String)
  | serialPrint (s : String)
  | useAllocator
  /-- `PICS.lock().initialize()` of `init`. -/
  | initializePics
  /-- `interrupts::enable` and `disable`. -/
  | enable
  | disable
  deriving DecidableEq

def Call.job : Call → Job Lock Item
  | .print s => Printing.print s
  | .serialPrint s => Printing.serialPrint s
  | .useAllocator => Printing.useAllocator
  | .initializePics => .bare .pics [.initializePics]
  | .enable => .setFlag true
  | .disable => .setFlag false

/-! ### The handlers -/

def pic1Offset : UInt8 := 32

/-- `InterruptIndex`. -/
def timerIndex : UInt8 := pic1Offset
def keyboardIndex : UInt8 := pic1Offset + 1
def primaryAtaIndex : UInt8 := pic1Offset + 14

/-- What becomes of a scancode in `add_scancode`. -/
inductive Scancode
  | queued
  | full
  | uninitialised

/-- What `on_primary_ata_interrupt` finds in the status. -/
inductive AtaStatus
  | error (error : UInt8)
  | wrote (lba : UInt32)
  | read (lba : UInt32)
  | idle

/-- The interrupts; `last` says whether the waker that the handler wakes is dropped with its last
reference. -/
inductive Interrupt
  | timer
  | keyboard (scancode : Scancode) (last : Bool)
  | primaryAta (status : AtaStatus) (last : Bool)

/-- `wake` of the waker that is registered. -/
def wake (last : Bool) : List (Job Lock Item) := if last then [useAllocator] else []

def addScancode (last : Bool) : Scancode → List (Job Lock Item)
  | .queued => wake last
  | .full => [println "WARNING: Scancode queue full; dropping input"]
  | .uninitialised => [println "WARNING: scancode queue uninitialised"]

/-- What `{:#x}` shows for a byte and `{}` for a number. -/
structure Format where
  hex : UInt8 → String
  decimal : UInt32 → String

variable (f : Format)

def onPrimaryAtaInterrupt (last : Bool) : AtaStatus → List (Job Lock Item)
  | .error error => [println ("ATA error: " ++ f.hex error)]
  | .wrote lba =>
    println ("ATA sector write complete (LBA: " ++ f.decimal lba ++ ")") :: wake last
  | .read lba =>
    println ("ATA sector read complete (LBA: " ++ f.decimal lba ++ ")") :: wake last
  | .idle => []

def Interrupt.handler : Interrupt → List (Job Lock Item)
  | .timer => [print ".", notifyEndOfInterrupt timerIndex]
  | .keyboard scancode last =>
    addScancode last scancode ++ [notifyEndOfInterrupt keyboardIndex]
  | .primaryAta status last =>
    onPrimaryAtaInterrupt f last status ++ [notifyEndOfInterrupt primaryAtaIndex]

/-- The waker that is woken stays in use. -/
def Interrupt.Keeps : Interrupt → Prop
  | .timer => True
  | .keyboard _ last | .primaryAta _ last => last = false

/-- The program is one of the calls above, the controllers are set up before interrupts are on,
and no handler drops the last reference to a waker. -/
def Valid {σ : Type} (s : Sys σ Lock Item) : Event Lock Item → Prop
  | .begin j => ∃ call : Call, j = call.job ∧ (call = .initializePics → s.core.flag = false)
  | .step => True
  | .interrupt js => ∃ i : Interrupt, js = i.handler f ∧ i.Keeps

/-! ### The discipline -/

/-- The locks that handlers use. -/
def shared (lock : Lock) : Prop := lock ≠ .allocator

lemma forHandler_print (s : String) : (print s).ForHandler shared :=
  (by decide : Lock.writer ≠ .allocator)

lemma forHandler_notify (id : UInt8) : (notifyEndOfInterrupt id).ForHandler shared :=
  (by decide : Lock.pics ≠ .allocator)

lemma Interrupt.forHandler {i : Interrupt} (h : i.Keeps) :
    ∀ j ∈ i.handler f, j.ForHandler shared := by
  cases i with
  | timer => simp [handler, forHandler_print, forHandler_notify]
  | keyboard scancode last =>
    obtain rfl : last = false := h
    cases scancode <;> simp [handler, addScancode, wake, println, forHandler_print,
      forHandler_notify]
  | primaryAta status last =>
    obtain rfl : last = false := h
    cases status <;> simp [handler, onPrimaryAtaInterrupt, wake, println, forHandler_print,
      forHandler_notify]

variable {σ : Type} {g : Guard σ} {f} {s s' : Sys σ Lock Item} {e : Event Lock Item}

lemma Valid.disciplined (h : Valid f s e) : Disciplined shared s e := by
  cases e with
  | begin j =>
    obtain ⟨call, rfl, hinit⟩ := h
    cases call with
    | useAllocator => exact fun hne => absurd rfl hne
    | initializePics => exact fun _ => hinit rfl
    | _ => trivial
  | step => trivial
  | interrupt js =>
    obtain ⟨i, rfl, hi⟩ := h
    exact i.forHandler f hi

/-! ### The messages -/

/-- Under the locks of the screen and of the serial port, messages are written. -/
def IsMessage (lock : Lock) (items : List Item) : Prop :=
  lock = .writer ∨ lock = .serial1 → ∃ s, message s = items

lemma isMessage_print (lock : Lock) (s : String) : (printOn lock s).All IsMessage :=
  fun _ => ⟨s, rfl⟩

lemma isMessage_bare {lock : Lock} (hne : lock ≠ .writer ∧ lock ≠ .serial1) (items : List Item) :
    (Job.bare lock items).All IsMessage := by
  rintro (h | h)
  exacts [absurd h hne.1, absurd h hne.2]

lemma Interrupt.isMessage (i : Interrupt) : ∀ j ∈ i.handler f, j.All IsMessage := by
  have hprint : ∀ s, (print s).All IsMessage := isMessage_print .writer
  have hend : ∀ id, (notifyEndOfInterrupt id).All IsMessage := fun id =>
    isMessage_bare (by decide) _
  have hwake : ∀ last, ∀ j ∈ wake last, j.All IsMessage := by
    intro last j hj
    cases last
    · cases hj
    · obtain rfl := List.mem_singleton.mp hj
      exact isMessage_bare (by decide) _
  cases i with
  | timer => simp [handler, hprint, hend]
  | keyboard scancode last =>
    simp only [handler, List.forall_mem_append, List.forall_mem_singleton, hend, and_true]
    cases scancode
    · exact hwake last
    · simp [addScancode, println, hprint]
    · simp [addScancode, println, hprint]
  | primaryAta status last =>
    simp only [handler, List.forall_mem_append, List.forall_mem_singleton, hend, and_true]
    cases status
    · simp [onPrimaryAtaInterrupt, println, hprint]
    · exact List.forall_mem_cons.mpr ⟨hprint _, hwake last⟩
    · exact List.forall_mem_cons.mpr ⟨hprint _, hwake last⟩
    · simp [onPrimaryAtaInterrupt]

lemma Valid.allMeet (h : Valid f s e) : AllMeet IsMessage s e := by
  cases e with
  | begin j =>
    obtain ⟨call, rfl, -⟩ := h
    cases call with
    | print s => exact isMessage_print _ s
    | serialPrint s => exact isMessage_print _ s
    | useAllocator => exact isMessage_bare (by decide) _
    | initializePics => exact isMessage_bare (by decide) _
    | enable => trivial
    | disable => trivial
  | step => trivial
  | interrupt js =>
    obtain ⟨i, rfl, -⟩ := h
    exact i.isMessage

def Item.sent : Item → Option UInt8
  | .byte b => some b
  | _ => none

/-- The bytes that have gone out under the lock. -/
def sent (s : Sys σ Lock Item) (lock : Lock) : List UInt8 :=
  (s.core.done lock).filterMap Item.sent

lemma reach_sound (h : Reach (Sys.next g) (Valid f) (.initial σ Lock Item) s) :
    Sound g shared s ∧ Logged IsMessage s :=
  ⟨h.inv sound_initial fun _ _ _ hi hok hs => hi.next (Valid.disciplined hok) hs,
    h.inv logged_initial fun _ _ _ hi hok hs => hi.next (Valid.allMeet hok) hs⟩

/-- A guard that looks whether interrupts are on. -/
def flagGuard : Guard Bool where
  ask flag := flag
  mask saved flag := if saved then false else flag
  leave saved flag := if saved then true else flag
  mask_ask := by decide
  leave_ask := by decide

def digits : Format where
  hex b := "0x" ++ String.ofList (Nat.toDigits 16 b.toNat)
  decimal n := toString n.toNat

/-- The handler drops the last reference to a waker. -/
inductive Interrupt.Frees : Interrupt → Prop
  | queued : Frees (.keyboard .queued true)
  | wrote (lba : UInt32) : Frees (.primaryAta (.wrote lba) true)
  | read (lba : UInt32) : Frees (.primaryAta (.read lba) true)

lemma stuck_of_allocator {saved : Option σ} {items : List Item} {js : List (Job Lock Item)}
    (hmain : s.main = .locked saved .allocator items) (hlock : s.core.lock .allocator = true)
    (hh : s.handler = some (.idle, useAllocator :: js)) : Stuck (s.step g) .allocator := by
  rw [step_begin hh]
  exact ⟨⟨_, _, hmain⟩, ⟨_, _, _, rfl⟩, hlock⟩

/-- The state in the interrupt, before the first job of its handler. -/
def entered (s : Sys σ Lock Item) (js : List (Job Lock Item)) : Sys σ Lock Item :=
  { s with core := { s.core with flag := false }, handler := some (.idle, js) }

lemma stuck_of_println {saved : Option σ} {items : List Item} {js : List (Job Lock Item)}
    (hmain : s.main = .locked saved .allocator items) (hlock : s.core.lock .allocator = true)
    (hwriter : s.core.lock .writer = false) (m : String) :
    ∃ t, Alone g (entered s (println m :: useAllocator :: js)) t ∧ Stuck t .allocator := by
  obtain ⟨t, ht, hht, hsame⟩ :=
    run_guarded (s := entered s (println m :: useAllocator :: js)) g rfl rfl hwriter
  refine ⟨t.step g, ht.step, stuck_of_allocator (hsame.main.trans hmain) ?_ hht⟩
  rw [hsame.lock]
  exact hlock

/-- **A handler must not free.** If an interrupt comes while the program is inside the allocator
with interrupts on, and its handler drops the last reference to a waker, the handler comes to wait
for the lock of the allocator, and the kernel never takes another step. -/
theorem freeing_handler_stuck {saved : Option σ} {items : List Item} {i : Interrupt}
    (h : Reach (Sys.next g) (Valid f) (.initial σ Lock Item) s)
    (hmain : s.main = .locked saved .allocator items) (hh : s.handler = none)
    (hflag : s.core.flag = true) (hi : i.Frees) :
    ∃ s₁ t, s.next g (.interrupt (i.handler f)) = some s₁ ∧ Alone g s₁ t ∧ Stuck t .allocator ∧
      ∀ ok t', Reach (Sys.next g) ok t t' → t' = t := by
  have howns : Owns s.core .idle s.main := by
    have hsound := (reach_sound h).1
    simp only [Sound, hh] at hsound
    exact hsound.1
  -- the program holds the lock of the allocator and no other
  have hlock : s.core.lock .allocator = true := by
    have := (howns .allocator).1
    cases hl : s.core.lock .allocator
    · simp [hmain, hl] at this
    · rfl
  have hwriter : s.core.lock .writer = false := by
    have := (howns .writer).1
    cases hl : s.core.lock .writer
    · rfl
    · simp [hmain, hl] at this
  have hnext : s.next g (.interrupt (i.handler f)) = some (entered s (i.handler f)) := by
    simp only [Sys.next, Sys.interrupt, hh, hflag, if_true, entered]
  obtain ⟨t, ht, hstuck⟩ : ∃ t, Alone g (entered s (i.handler f)) t ∧ Stuck t .allocator := by
    cases hi with
    | queued => exact ⟨_, Alone.step .start, stuck_of_allocator hmain hlock rfl⟩
    | wrote lba => exact stuck_of_println hmain hlock hwriter _
    | read lba => exact stuck_of_println hmain hlock hwriter _
  exact ⟨_, t, hnext, ht, hstuck, fun ok t' hr => hstuck.forever hr⟩

/-- A disk interrupt during an allocation. -/
theorem freeing_handler_stuck_read : ∃ s t : Sys Bool Lock Item,
    Reach (Sys.next flagGuard) (Valid digits) (.initial Bool Lock Item) s ∧
      s.main = .locked none .allocator [.access] ∧ Stuck t .allocator := by
  have h₁ : Reach (Sys.next flagGuard) (Valid digits) (.initial Bool Lock Item) _ :=
    .step (e := .begin (Call.job .enable)) .start ⟨.enable, rfl, nofun⟩ rfl
  have h₂ := Reach.step (e := Event.begin (Call.job .useAllocator)) h₁
    ⟨.useAllocator, rfl, nofun⟩ rfl
  have h₃ := Reach.step (e := Event.step) h₂ trivial rfl
  obtain ⟨-, t, -, -, hstuck, -⟩ := freeing_handler_stuck h₃ rfl rfl rfl (.read 0)
  exact ⟨_, t, h₃, rfl, hstuck⟩

end RustyOs.Printing
