import RustyOs.AtaRuns
import RustyOs.KernelRank

/-!
A task that reads sectors from the disk, one after the other, under the executor
(`AtaDriver::read_sector_async` and `SectorRead::poll` of `src/ata.rs`).

A read sets the statics, gives the command and then waits: it looks for its result, leaves its
waker, looks again and returns `Pending`. A poll of the task goes on with the next read when one
returns. Nothing else uses the driver. `DISK_WAKER` has been made by `AtaDriver::init`.
-/

namespace RustyOs.DiskTask

open RustyOs.Tasks RustyOs.TaskQueue RustyOs.Machine RustyOs.Polled RustyOs.Kernel RustyOs.Ata
open RustyOs.AtaRuns

/-- The driver, the commands the drive has not answered, the reads still to be made and the
results of those that have returned. -/
structure Disk where
  driver : Driver
  device : List Command
  rest : List UInt32
  results : List (UInt32 × Sector)

def Disk.initial (lbas : List UInt32) : Disk := ⟨.initial, [], lbas, []⟩

/-- Where the task stands: before a call, or at a step of the poll of the read it waits for. -/
inductive Stage
  | call
  | check (lba : UInt32)
  | register (lba : UInt32)
  | recheck (lba : UInt32)
  | pend (lba : UInt32)

/-- A look of `poll` for the result: the call returns, or the poll goes on at `b`. -/
def look (lba : UInt32) (b : Stage) (d : Disk) : Act Stage Disk :=
  match checkRead lba d.driver with
  | (driver, some sector) =>
    .go .call { d with driver := driver, results := d.results ++ [(lba, sector)] }
  | (driver, none) => .go b { d with driver := driver }

def poll (stage : Stage) (d : Disk) : Act Stage Disk :=
  match stage with
  | .call =>
    match d.rest with
    | [] => .ready
    | lba :: rest =>
      let (driver, cmd) := readSectorAsync lba d.driver
      .go (.check lba) { d with driver := driver, device := d.device ++ [cmd], rest := rest }
  | .check lba => look lba (.register lba) d
  | .register lba => .register (.recheck lba)
  | .recheck lba => look lba (.pend lba) d
  | .pend lba => .pending (.check lba)

/-- The interrupt that answers the oldest command, by the status it comes with. -/
def answer (disk : UInt32 → Sector) (status : UInt8) (d : Disk) : Option (Disk × Bool) :=
  match d.device with
  | [] => none
  | cmd :: rest =>
    let h := onPrimaryAtaInterrupt status (cmd.port disk fun _ => 0) d.driver
    some ({ d with driver := h.driver, device := rest }, h.woke)

def readTask (disk : UInt32 → Sector) : Poller Stage Disk UInt8 where
  step := poll
  irq := answer disk

/-- The drive has the data and reports no error. -/
def Drq (status : UInt8) : Prop := status &&& statusErr = 0 ∧ status &&& statusDrq ≠ 0

/-! ### The protocol -/

/-- The read waits, and would return at the next look. -/
def Complete (d : Disk) (lba : UInt32) : Prop :=
  d.driver.operationComplete = true ∧ d.driver.pendingLba = lba

def protocol : Protocol Stage Disk where
  armed := fun b => ∃ lba, b = .recheck lba ∨ b = .pend lba
  blocked := fun b => ∃ lba, b = .pend lba
  due := fun b d => ∃ lba, (b = .check lba ∨ b = .pend lba) ∧ Complete d lba

variable {disk : UInt32 → Sector} {lba : UInt32} {b b' : Stage} {d d' : Disk}

/-- The disk after the call of a read. -/
def Disk.called (d : Disk) (lba : UInt32) (rest : List UInt32) : Disk :=
  { d with
    driver := { d.driver with pendingLba := lba, operationComplete := false }
    device := d.device ++ [⟨.readSectors, setRegisters lba⟩]
    rest := rest }

/-- The disk after the return of a read. -/
def Disk.returned (d : Disk) (lba : UInt32) : Disk :=
  { d with
    driver := { d.driver with operationComplete := false }
    results := d.results ++ [(lba, d.driver.sectorBuffer)] }

/-- What a poll does next. -/
inductive Polls (d : Disk) : Stage → Act Stage Disk → Prop
  | done (h : d.rest = []) : Polls d .call .ready
  | call {lba : UInt32} {rest : List UInt32} (h : d.rest = lba :: rest) :
      Polls d .call (.go (.check lba) (d.called lba rest))
  | returns {lba : UInt32} {b : Stage} (hb : b = .check lba ∨ b = .recheck lba)
      (hc : Complete d lba) : Polls d b (.go .call (d.returned lba))
  | first {lba : UInt32} (hc : ¬ Complete d lba) : Polls d (.check lba) (.go (.register lba) d)
  | register {lba : UInt32} : Polls d (.register lba) (.register (.recheck lba))
  | second {lba : UInt32} (hc : ¬ Complete d lba) : Polls d (.recheck lba) (.go (.pend lba) d)
  | pend {lba : UInt32} : Polls d (.pend lba) (.pending (.check lba))

lemma look_of_complete (hc : Complete d lba) (b : Stage) :
    look lba b d = .go .call (d.returned lba) := by
  have hcheck : checkRead lba d.driver = _ := if_pos hc
  simp [look, hcheck, Disk.returned]

lemma look_of_not_complete (hc : ¬ Complete d lba) (b : Stage) : look lba b d = .go b d := by
  have hcheck : checkRead lba d.driver = _ := if_neg hc
  simp [look, hcheck]

lemma polls_poll (b : Stage) (d : Disk) : Polls d b (poll b d) := by
  cases b with
  | call =>
    rcases hr : d.rest with _ | ⟨lba, rest⟩
    · simpa only [poll, hr] using .done hr
    · simpa only [poll, hr] using .call hr
  | check lba =>
    by_cases hc : Complete d lba
    · simpa only [poll, look_of_complete hc] using .returns (.inl rfl) hc
    · simpa only [poll, look_of_not_complete hc] using .first hc
  | register lba => exact .register
  | recheck lba =>
    by_cases hc : Complete d lba
    · simpa only [poll, look_of_complete hc] using .returns (.inr rfl) hc
    · simpa only [poll, look_of_not_complete hc] using .second hc
  | pend lba => exact .pend

lemma polls_of_step {a : Act Stage Disk} (h : (readTask disk).step b d = a) : Polls d b a :=
  h ▸ polls_poll b d

lemma answer_cases {status : UInt8} {wakes : Bool} (h : answer disk status d = some (d', wakes)) :
    ∃ cmd, d.device = cmd :: d'.device ∧
      d' = { d with
        driver := (onPrimaryAtaInterrupt status (cmd.port disk fun _ => 0) d.driver).driver
        device := d'.device } ∧
      wakes = (onPrimaryAtaInterrupt status (cmd.port disk fun _ => 0) d.driver).woke := by
  rcases hd : d.device with _ | ⟨cmd, rest⟩ <;> simp only [answer, hd] at h
  · cases h
  · obtain ⟨rfl, rfl⟩ := Prod.mk.inj (Option.some.inj h)
    exact ⟨cmd, rfl, rfl, rfl⟩

lemma woke_of_complete {status : UInt8} {port : Words} {a : Driver}
    (h : (onPrimaryAtaInterrupt status port a).driver.operationComplete = true) :
    a = (onPrimaryAtaInterrupt status port a).driver ∨
      (onPrimaryAtaInterrupt status port a).woke = true := by
  by_cases herr : status &&& statusErr = 0
  · by_cases hdrq : status &&& statusDrq = 0
    · left
      simp [onPrimaryAtaInterrupt, herr, hdrq]
    · right
      by_cases hw : a.writeComplete = false ∧ a.operationComplete = true
      · rw [handle_write ⟨herr, hdrq⟩ port hw]
      · rw [handle_read ⟨herr, hdrq⟩ port hw]
  · simp [onPrimaryAtaInterrupt, herr] at h

lemma careful : Careful (readTask disk) protocol where
  blocked_armed := fun b ⟨lba, hb⟩ => ⟨lba, .inr hb⟩
  go_armed := fun b d b' d' h ⟨lba, hb'⟩ => by
    cases polls_of_step h with
    | call => simp at hb'
    | returns => simp at hb'
    | first => simp at hb'
    | @second l => exact ⟨l, .inl rfl⟩
  go_blocked := fun b d b' d' h ⟨lba, hb'⟩ hdue => by
    obtain ⟨l, hl, hcomp⟩ := hdue
    cases polls_of_step h with
    | call => cases hb'
    | returns => cases hb'
    | first => cases hb'
    | second hc =>
      rcases hl with hl | hl
      · cases hl
      · obtain rfl := Stage.pend.inj hl
        exact hc hcomp
  register := fun b d b' h ⟨lba, hb'⟩ => by
    cases polls_of_step h
    cases hb'
  take := fun b d b' d' h => by
    cases polls_of_step h
  pending := fun b d b' h => by
    cases polls_of_step h with
    | @pend lba =>
      refine ⟨⟨lba, rfl⟩, by simp [protocol], ?_⟩
      rintro ⟨l, hl, hcomp⟩
      rcases hl with hl | hl
      · obtain rfl := Stage.check.inj hl
        exact ⟨lba, .inr rfl, hcomp⟩
      · cases hl
  ready := fun b d h => by
    cases polls_of_step h
    simp [protocol]
  irq := fun status d d' wakes b h ⟨lba, hb, hoc, hlba⟩ => by
    obtain ⟨cmd, -, hd', rfl⟩ := answer_cases h
    rw [hd'] at hoc hlba
    rcases woke_of_complete hoc with hsame | hwoke
    · left
      refine ⟨lba, hb, ?_, ?_⟩
      · rw [hsame]
        exact hoc
      · rw [hsame]
        exact hlba
    · exact .inr hwoke

/-! ### What the reads return -/

/-- The read the task waits for. -/
def inCall : Stage → List UInt32
  | .call => []
  | .check lba => [lba]
  | .register lba => [lba]
  | .recheck lba => [lba]
  | .pend lba => [lba]

/-- The sector the drive finds in the registers for a sector number. -/
def addressed (lba : UInt32) : UInt32 := UInt32.ofNat (lba.toNat % 2 ^ 28)

/-- The command for a sector is with the drive, or the sector is in the buffer. -/
def Answers (disk : UInt32 → Sector) (d : Disk) (lba : UInt32) : Prop :=
  (d.device = [⟨.readSectors, setRegisters lba⟩] ∧ d.driver.operationComplete = false) ∨
    d.device = [] ∧ d.driver.operationComplete = true ∧
      d.driver.sectorBuffer = disk (addressed lba)

/-- The calls are made in order, one at a time, and return what the drive was asked for. -/
structure Reads (disk : UInt32 → Sector) (lbas : List UInt32) (v : View Stage Disk) : Prop where
  order : v.source.results.map Prod.fst ++ inCall v.stage ++ v.source.rest = lbas
  right : ∀ r ∈ v.source.results, r.2 = disk (addressed r.1)
  free : inCall v.stage = [] → v.source.device = []
  waits : ∀ lba ∈ inCall v.stage, v.source.driver.pendingLba = lba ∧ Answers disk v.source lba
  live : v.polled = true ∨ inCall v.stage ≠ [] → v.live = true

variable {lbas : List UInt32} {v v' : View Stage Disk}

lemma Reads.call (h : Reads disk lbas v) (hp : v.polled = true) (hb : v.stage = .call)
    {rest : List UInt32} (hr : v.source.rest = lba :: rest) :
    Reads disk lbas { v with stage := .check lba, source := v.source.called lba rest } where
  order := by simpa [hb, hr, inCall, Disk.called] using h.order
  right := h.right
  free := by simp [inCall]
  waits := fun l hl => by
    obtain rfl := List.mem_singleton.mp hl
    have hfree := h.free (by simp [hb, inCall])
    exact ⟨rfl, .inl ⟨by simp [Disk.called, hfree], rfl⟩⟩
  live := fun _ => h.live (.inl hp)

lemma Reads.returns (h : Reads disk lbas v) (hp : v.polled = true) (hb : inCall v.stage = [lba])
    (hc : Complete v.source lba) :
    Reads disk lbas { v with stage := .call, source := v.source.returned lba } := by
  obtain ⟨-, hans⟩ := h.waits lba (by simp [hb])
  rcases hans with ⟨-, hoc⟩ | ⟨hdev, -, hbuf⟩
  · rw [hc.1] at hoc
    cases hoc
  refine ⟨?_, ?_, fun _ => hdev, by simp [inCall], fun _ => h.live (.inl hp)⟩
  · have horder := h.order
    rw [hb] at horder
    simpa [inCall, Disk.returned] using horder
  · intro r hr
    rcases List.mem_append.mp hr with hr | hr
    · exact h.right r hr
    · obtain rfl := List.mem_singleton.mp hr
      exact hbuf

lemma Reads.within (h : Reads disk lbas v) (hd : v'.source = v.source)
    (hb : inCall v'.stage = inCall v.stage) (hl : v'.live = true) : Reads disk lbas v' where
  order := by rw [hd, hb, h.order]
  right := by simpa [hd] using h.right
  free := fun hf => by rw [hd, h.free (hb ▸ hf)]
  waits := fun l hl => by
    rw [hd]
    exact h.waits l (hb ▸ hl)
  live := fun _ => hl

lemma Reads.act (h : Reads disk lbas v) (hp : v.polled = true)
    (hs : v.act (poll v.stage v.source) = some v') : Reads disk lbas v' := by
  have hl := h.live (.inl hp)
  have hpoll := polls_poll v.stage v.source
  generalize hst : v.stage = b at hpoll hs
  generalize hact : poll b v.source = act at hpoll hs
  cases hpoll <;> rw [View.act] at hs <;> cases hs
  case done hr => exact ⟨h.order, h.right, h.free, h.waits, by simp [hst, inCall]⟩
  case call hr => exact h.call hp hst hr
  case returns lba hc hb =>
    refine h.returns hp ?_ hc
    rcases hb with rfl | rfl <;> simp [hst, inCall]
  case first hc => exact h.within rfl (by simp [hst, inCall]) hl
  case register => exact h.within rfl (by simp [hst, inCall]) hl
  case second hc => exact h.within rfl (by simp [hst, inCall]) hl
  case pend => exact h.within rfl (by simp [hst, inCall]) hl

/-- The disk after an answer without an error. -/
def Disk.answered (d : Disk) (disk : UInt32 → Sector) (lba : UInt32) : Disk :=
  { d with
    driver := { d.driver with sectorBuffer := disk (addressed lba), operationComplete := true }
    device := [] }

lemma answer_of_drq {status : UInt8} (hst : Drq status)
    (hdev : d.device = [⟨.readSectors, setRegisters lba⟩])
    (hoc : d.driver.operationComplete = false) :
    answer disk status d = some (d.answered disk lba, true) := by
  have hport : ofWords (Command.port ⟨.readSectors, setRegisters lba⟩ disk fun _ => 0) =
      disk (addressed lba) := by
    rw [port_read rfl, ofWords_toWords, setRegisters_lba]
    rfl
  simp only [answer, hdev]
  rw [handle_read hst _ (by simp [hoc]), hport]
  rfl

lemma Reads.interrupt (h : Reads disk lbas v) {status : UInt8} (hst : Drq status) {wakes : Bool}
    (hi : answer disk status v.source = some (d', wakes)) :
    Reads disk lbas (v.interrupt d' wakes) := by
  obtain ⟨cmd, hdev, -⟩ := answer_cases hi
  rcases hin : inCall v.stage with _ | ⟨lba, _ | _⟩
  · -- the drive has nothing to answer
    rw [h.free hin] at hdev
    cases hdev
  · obtain ⟨hlba, ⟨hcmd, hoc⟩ | ⟨hnil, -⟩⟩ := h.waits lba (by simp [hin])
    · have heq := (answer_of_drq hst hcmd hoc).symm.trans hi
      obtain ⟨rfl, rfl⟩ := Prod.mk.inj (Option.some.inj heq)
      refine ⟨h.order, h.right, fun _ => rfl, fun l hl => ?_, h.live⟩
      obtain rfl : l = lba := by simpa [View.interrupt, hin] using hl
      exact ⟨hlba, .inr ⟨rfl, rfl, rfl⟩⟩
    · rw [hnil] at hdev
      cases hdev
  · cases hst : v.stage <;> simp [hst, inCall] at hin

lemma reads_of_reach (h : Reach (View.next (readTask disk)) (fun _ m => m.Ok Drq)
    (.initial .call (.initial lbas)) v) : Reads disk lbas v := by
  refine h.inv ⟨rfl, ?_, fun _ => rfl, ?_, ?_⟩ fun v m v' hv hok hs => ?_
  · simp [View.initial, Disk.initial]
  · simp [View.initial, inCall]
  · simp [View.initial, inCall]
  cases m with
  | spawn =>
    obtain rfl := Option.some.inj hs
    exact hv.within rfl rfl rfl
  | wake =>
    obtain rfl := Option.some.inj hs
    exact ⟨hv.order, hv.right, hv.free, hv.waits, hv.live⟩
  | resume =>
    rw [View.next] at hs
    split_ifs at hs with hp
    obtain rfl := Option.some.inj hs
    exact hv.within rfl rfl hp.1
  | act =>
    rw [View.next] at hs
    split_ifs at hs with hp
    exact hv.act hp hs
  | irq status =>
    obtain ⟨⟨d, wakes⟩, hi, rfl⟩ := Option.map_eq_some_iff.mp hs
    exact hv.interrupt hok hi

lemma stage_of_reach {ok : View Stage Disk → Move UInt8 → Prop}
    (h : Reach (View.next (readTask disk)) ok (.initial .call (.initial lbas)) v)
    (hp : v.polled = false) : v.stage = .call ∨ ∃ lba, v.stage = .check lba := by
  refine rests_of_reach (R := fun b => b = .call ∨ ∃ lba, b = .check lba) ?_ ?_ (.inl rfl) h hp
  · intro b d b' hs
    cases polls_of_step hs with
    | @pend lba => exact .inr ⟨lba, rfl⟩
  · intro b d hs
    cases polls_of_step hs
    exact .inl rfl

lemma results_act (hs : v.act (poll v.stage v.source) = some v') :
    v.source.results <+: v'.source.results := by
  have hpoll := polls_poll v.stage v.source
  generalize v.stage = b at hpoll hs
  generalize poll b v.source = act at hpoll hs
  cases hpoll <;> rw [View.act] at hs <;> cases hs
  case returns => exact List.prefix_append _ _
  all_goals exact List.prefix_rfl

lemma results_next {m : Move UInt8} (hs : View.next (readTask disk) v m = some v') :
    v.source.results <+: v'.source.results := by
  cases m with
  | spawn =>
    obtain rfl := Option.some.inj hs
    exact List.prefix_rfl
  | wake =>
    obtain rfl := Option.some.inj hs
    exact List.prefix_rfl
  | resume =>
    rw [View.next] at hs
    split_ifs at hs
    obtain rfl := Option.some.inj hs
    exact List.prefix_rfl
  | act =>
    rw [View.next] at hs
    split_ifs at hs
    exact results_act hs
  | irq i =>
    obtain ⟨⟨d, wakes⟩, hi, rfl⟩ := Option.map_eq_some_iff.mp hs
    obtain ⟨cmd, -, hd, -⟩ := answer_cases hi
    have hsrc : (v.interrupt d wakes).source = d := by cases wakes <;> rfl
    rw [hsrc, hd]

lemma addressed_of_lt (h : lba.toNat < 2 ^ 28) : addressed lba = lba := by
  rw [addressed, Nat.mod_eq_of_lt h, UInt32.ofNat_toNat]

lemma Reads.results (h : Reads disk lbas v) (hlbas : ∀ lba ∈ lbas, lba.toNat < 2 ^ 28) :
    v.source.results =
      (lbas.take v.source.results.length).map fun lba => (lba, disk lba) := by
  have htake : lbas.take v.source.results.length = v.source.results.map Prod.fst := by
    rw [← h.order, List.append_assoc, List.take_left' (by simp)]
  rw [htake, List.map_map]
  conv_lhs => rw [← List.map_id v.source.results]
  apply List.map_congr_left
  intro r hr
  have hmem : r.1 ∈ lbas := List.mem_of_mem_take (htake ▸ List.mem_map_of_mem hr)
  have hright := h.right r hr
  rw [addressed_of_lt (hlbas _ hmem)] at hright
  exact Prod.ext rfl hright

end RustyOs.DiskTask
