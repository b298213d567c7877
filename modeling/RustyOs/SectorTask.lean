import RustyOs.CrashLogic
import RustyOs.DiskRuns

/-!
A program over sectors as a task under the executor.

The methods of `Fat32` are programs that read and write sectors one after the other. Awaited in
a task, such a program goes on through `read_sector_async` and `write_sector_async` and the
`poll` of the futures they return (`src/ata.rs`), and waits wherever one of these waits. The
drive answers every command with one interrupt, with whatever status. `DISK_WAKER` has been made.

The statics of the driver are in the state of this one task: no other task reads or writes sectors
meanwhile. What the other tasks do apart from that is left open.
-/

namespace RustyOs.SectorTask

open RustyOs.Machine RustyOs.Polled RustyOs.Kernel RustyOs.Ata RustyOs.AtaRuns
open RustyOs.BlockProg RustyOs.BlockProg.Prog RustyOs.CrashLogic
open RustyOs.DiskTask (addressed)

variable {S E α : Type}

/-- Where the `poll` of a future stands. -/
inductive Wait
  | check
  | register
  | recheck
  | pend

/-- Where the task stands: before its next transfer, or in the call for one. -/
inductive Stage (S E α : Type)
  | run (p : Prog S UInt32 Sector E α)
  | read (w : Wait) (lba : UInt32) (k : Sector → Prog S UInt32 Sector E α)
  | write (w : Wait) (lba : UInt32) (k : Prog S UInt32 Sector E α)

/-- The driver, the commands the drive has not answered, and the disk in it. -/
structure Drive where
  driver : Driver
  device : List Command
  disk : UInt32 → Sector

def Drive.initial (disk : UInt32 → Sector) : Drive := ⟨.initial, [], disk⟩

/-- A look of `SectorRead::poll`: the program goes on with the sector, or the poll at `w`. -/
def lookRead (w : Wait) (lba : UInt32) (k : Sector → Prog S UInt32 Sector E α) (d : Drive) :
    Act (Stage S E α) Drive :=
  match checkRead lba d.driver with
  | (driver, some sector) => .go (.run (k sector)) { d with driver := driver }
  | (driver, none) => .go (.read w lba k) { d with driver := driver }

/-- A look of `SectorWrite::poll`. -/
def lookWrite (w : Wait) (lba : UInt32) (k : Prog S UInt32 Sector E α) (d : Drive) :
    Act (Stage S E α) Drive :=
  match checkWrite lba d.driver with
  | (driver, true) => .go (.run k) { d with driver := driver }
  | (driver, false) => .go (.write w lba k) { d with driver := driver }

def poll : Stage S E α → Drive → Act (Stage S E α) Drive
  | .run (.ret _), _ => .ready
  | .run (.raise _), _ => .ready
  | .run .abort, _ => .panic
  | .run (.read _ lba k), d =>
    let (driver, cmd) := readSectorAsync lba d.driver
    .go (.read .check lba k) { d with driver := driver, device := d.device ++ [cmd] }
  | .run (.write _ lba data k), d =>
    let (driver, cmd) := writeSectorAsync lba data d.driver
    .go (.write .check lba k) { d with driver := driver, device := d.device ++ [cmd] }
  | .read .check lba k, d => lookRead .register lba k d
  | .read .register lba k, _ => .register (.read .recheck lba k)
  | .read .recheck lba k, d => lookRead .pend lba k d
  | .read .pend lba k, _ => .pending (.read .check lba k)
  | .write .check lba k, d => lookWrite .register lba k d
  | .write .register lba k, _ => .register (.write .recheck lba k)
  | .write .recheck lba k, d => lookWrite .pend lba k d
  | .write .pend lba k, _ => .pending (.write .check lba k)

/-- The interrupt that answers the oldest command: its status, and the words the port gives when
the command was not a read. -/
def answer (i : UInt8 × Words) (d : Drive) : Option (Drive × Bool) :=
  match d.device with
  | [] => none
  | cmd :: rest =>
    let h := onPrimaryAtaInterrupt i.1 (cmd.port d.disk i.2) d.driver
    some (⟨h.driver, rest, cmd.store d.disk h.sent⟩, h.woke)

def sectorTask : Poller (Stage S E α) Drive (UInt8 × Words) := ⟨poll, answer⟩

/-- The disk as the registers can address it: 28 bits of the sector number count. -/
def seen (disk : UInt32 → Sector) : UInt32 → Sector := fun lba => disk (addressed lba)

/-! ### What a program may have done -/

variable {disk : UInt32 → Sector} {p q : Prog S UInt32 Sector E α} {lba : UInt32}
variable {k : Sector → Prog S UInt32 Sector E α} {d d' : Drive} {b b' : Stage S E α}
variable {w w' : Wait}

/-- A program that has come to `q` by reads alone. -/
structure Left (disk : UInt32 → Sector) (p q : Prog S UInt32 Sector E α) : Prop where
  result : (exec q (seen disk)).1 = (exec p (seen disk)).1
  writes : writes q (seen disk) = writes p (seen disk)

lemma Left.read {s : S} (h : Left disk p (.read s lba k)) : Left disk p (k (seen disk lba)) :=
  ⟨h.result, h.writes⟩

/-- **What holds of the task and the drive**, for a task that began with `p`. A program that has
come to a write stays in it: the flag it waits for is never set. -/
inductive Stands (disk : UInt32 → Sector) (p : Prog S UInt32 Sector E α) :
    Stage S E α → Drive → Prop
  | run {q : Prog S UInt32 Sector E α} {d : Drive} (hq : Left disk p q) (hdisk : d.disk = disk)
      (hfree : d.device = []) (hoc : d.driver.operationComplete = false) : Stands disk p (.run q) d
  | asked {w : Wait} {lba : UInt32} {k : Sector → Prog S UInt32 Sector E α} {d : Drive}
      (hq : Left disk p (k (seen disk lba))) (hdisk : d.disk = disk)
      (hlba : d.driver.pendingLba = lba) (hcmd : d.device = [⟨.readSectors, setRegisters lba⟩])
      (hoc : d.driver.operationComplete = false) : Stands disk p (.read w lba k) d
  | answered {w : Wait} {lba : UInt32} {k : Sector → Prog S UInt32 Sector E α} {d : Drive}
      (hq : Left disk p (k (seen disk lba))) (hdisk : d.disk = disk)
      (hlba : d.driver.pendingLba = lba) (hfree : d.device = [])
      (hbuf : d.driver.operationComplete = true → d.driver.sectorBuffer = seen disk lba) :
      Stands disk p (.read w lba k) d
  | writing {w : Wait} {lba : UInt32} {k : Prog S UInt32 Sector E α} {d : Drive}
      (hp : writes p (seen disk) ≠ []) (hdisk : d.disk = disk)
      (hwc : d.driver.writeComplete = false)
      (hoc : d.device ≠ [] → d.driver.operationComplete = false)
      (hone : ∀ cmd rest, d.device = cmd :: rest → rest = []) : Stands disk p (.write w lba k) d

lemma Stands.disk_eq (h : Stands disk p b d) : d.disk = disk := by
  cases h <;> assumption

lemma Stands.move_read (h : Stands disk p (.read w lba k) d) :
    Stands disk p (.read w' lba k) d := by
  cases h with
  | asked hq hdisk hlba hcmd hoc => exact .asked hq hdisk hlba hcmd hoc
  | answered hq hdisk hlba hfree hbuf => exact .answered hq hdisk hlba hfree hbuf

lemma Stands.move_write (h : Stands disk p (.write w lba q) d) :
    Stands disk p (.write w' lba q) d := by
  cases h with
  | writing hp hdisk hwc hoc hone => exact .writing hp hdisk hwc hoc hone

lemma Stands.look (h : Stands disk p (.read w lba k) d) (w' : Wait) :
    lookRead w' lba k d = .go (.read w' lba k) d ∨
      (∃ d', lookRead w' lba k d = .go (.run (k (seen disk lba))) d' ∧
        Stands disk p (.run (k (seen disk lba))) d') := by
  by_cases hc : d.driver.operationComplete = true ∧ d.driver.pendingLba = lba
  · right
    have hcheck : checkRead lba d.driver = _ := if_pos hc
    cases h with
    | asked hq hdisk hlba hcmd hoc =>
      rw [hoc] at hc
      cases hc.1
    | answered hq hdisk hlba hfree hbuf =>
      simp only [lookRead, hcheck, hbuf hc.1]
      exact ⟨_, rfl, .run hq hdisk hfree rfl⟩
  · left
    have hcheck : checkRead lba d.driver = _ := if_neg hc
    simp only [lookRead, hcheck]

lemma Stands.lookWrite (h : Stands disk p (.write w lba q) d) (w' : Wait) :
    lookWrite w' lba q d = .go (.write w' lba q) d := by
  cases h with
  | writing hp hdisk hwc hoc hone =>
    have hcheck : checkWrite lba d.driver = _ := if_neg fun hc => by simp [hwc] at hc
    simp only [SectorTask.lookWrite, hcheck]

/-- What a step of a poll may come to. -/
inductive Polls (disk : UInt32 → Sector) (p : Prog S UInt32 Sector E α) (d : Drive) :
    Act (Stage S E α) Drive → Prop
  | done : Polls disk p d .ready
  | panic : Polls disk p d .panic
  | go {b : Stage S E α} {d' : Drive} (h : Stands disk p b d') : Polls disk p d (.go b d')
  | register {b : Stage S E α} (h : Stands disk p b d) : Polls disk p d (.register b)
  | pending {b : Stage S E α} (h : Stands disk p b d) : Polls disk p d (.pending b)

lemma Stands.polls_read (h : Stands disk p (.read w lba k) d) :
    Polls disk p d (poll (.read w lba k) d) := by
  have hlook : ∀ w', Polls disk p d (lookRead w' lba k d) := fun w' => by
    rcases h.look w' with he | ⟨d', he, hd'⟩
    · rw [he]
      exact .go h.move_read
    · rw [he]
      exact .go hd'
  cases w with
  | check => exact hlook _
  | register => exact .register h.move_read
  | recheck => exact hlook _
  | pend => exact .pending h.move_read

lemma Stands.polls_write (h : Stands disk p (.write w lba q) d) :
    Polls disk p d (poll (.write w lba q) d) := by
  have hlook : ∀ w', Polls disk p d (SectorTask.lookWrite w' lba q d) :=
    fun w' => by
      rw [h.lookWrite w']
      exact .go h.move_write
  cases w with
  | check => exact hlook _
  | register => exact .register h.move_write
  | recheck => exact hlook _
  | pend => exact .pending h.move_write

/-- **A step of the task.** -/
lemma Stands.polls (h : Stands disk p b d) : Polls disk p d (poll b d) := by
  cases h with
  | @run q _ hq hdisk hfree hoc =>
    cases q with
    | ret a => exact .done
    | raise e => exact .done
    | abort => exact .panic
    | read s lba k => exact .go (.asked hq.read hdisk rfl (by simp [hfree]) rfl)
    | write s lba data k =>
      have hw := hq.writes
      refine .go (.writing (fun hnil => ?_) hdisk rfl (fun _ => hoc) fun cmd rest hcmd => ?_)
      · rw [hnil] at hw
        cases hw
      · simp only [hfree, List.nil_append, List.cons.injEq] at hcmd
        exact hcmd.2.symm
  | asked hq hdisk hlba hcmd hoc => exact (Stands.asked hq hdisk hlba hcmd hoc).polls_read
  | answered hq hdisk hlba hfree hbuf =>
    exact (Stands.answered hq hdisk hlba hfree hbuf).polls_read
  | writing hp hdisk hwc hoc hone => exact (Stands.writing hp hdisk hwc hoc hone).polls_write

lemma store_none (cmd : Command) (disk : UInt32 → Sector) : cmd.store disk none = disk := by
  unfold Command.store
  split
  · contradiction
  · rfl

lemma Stands.act {v v' : View (Stage S E α) Drive} (h : Stands disk p v.stage v.source)
    (hs : v.act (poll v.stage v.source) = some v') : Stands disk p v'.stage v'.source := by
  have hpolls := h.polls
  generalize poll v.stage v.source = act at hpolls hs
  cases hpolls <;> rw [View.act] at hs <;> cases hs
  case done => exact h
  all_goals assumption

/-- What the handler does to the flags when no read is complete: it sends nothing. -/
lemma handled (status : UInt8) (port : Words) {a : Driver} (hoc : a.operationComplete = false) :
    let h := onPrimaryAtaInterrupt status port a
    h.sent = none ∧ h.driver.pendingLba = a.pendingLba ∧
      (a.writeComplete = false → h.driver.writeComplete = false) ∧
      (h.driver.operationComplete = true → h.driver.sectorBuffer = ofWords port) := by
  unfold onPrimaryAtaInterrupt
  split_ifs with herr hdrq
  · simp
  · simp [hoc]
  · simp [hoc]

/-- **An interrupt**, whatever its status. -/
lemma Stands.interrupt (h : Stands disk p b d) {i : UInt8 × Words} {wakes : Bool}
    (hi : answer i d = some (d', wakes)) : Stands disk p b d' := by
  rcases hd : d.device with _ | ⟨cmd, rest⟩ <;> simp only [answer, hd] at hi
  · cases hi
  obtain ⟨rfl, -⟩ := Prod.mk.inj (Option.some.inj hi)
  cases h with
  | run hq hdisk hfree hoc => cases hfree.symm.trans hd
  | @asked w lba k _ hq hdisk hlba hcmd hoc =>
    obtain ⟨rfl, rfl⟩ := List.cons.inj (hcmd.symm.trans hd)
    obtain ⟨-, hpend, -, hbuf⟩ := handled i.1
      (Command.port ⟨.readSectors, setRegisters lba⟩ d.disk i.2) hoc
    refine .answered hq ?_ (hpend.trans hlba) rfl fun hc => ?_
    · simp only [store_read]
      exact hdisk
    rw [hbuf hc, port_read rfl, ofWords_toWords, setRegisters_lba, hdisk]
    rfl
  | answered hq hdisk hlba hfree hbuf => cases hfree.symm.trans hd
  | writing hp hdisk hwc hoc hone =>
    obtain ⟨hsent, -, hkeep, -⟩ := handled i.1 (cmd.port d.disk i.2) (hoc (by simp [hd]))
    have hrest : rest = [] := hone cmd rest hd
    refine .writing hp ?_ (hkeep hwc) (fun hne => absurd hrest hne) (by simp [hrest])
    simp only [hsent, store_none]
    exact hdisk

/-- **Every run of the task.** -/
lemma stands_of_reach {v : View (Stage S E α) Drive} {ok : View (Stage S E α) Drive →
    Move (UInt8 × Words) → Prop}
    (h : Reach (View.next sectorTask) ok (.initial (.run p) (.initial disk)) v) :
    Stands disk p v.stage v.source := by
  have h₀ : Stands disk p (.run p) (.initial disk) := .run ⟨rfl, rfl⟩ rfl rfl rfl
  refine h.inv (I := fun v => Stands disk p v.stage v.source) h₀ fun v m v' hv _ hs => ?_
  cases m with
  | spawn =>
    obtain rfl := Option.some.inj hs
    exact hv
  | wake =>
    obtain rfl := Option.some.inj hs
    exact hv
  | resume =>
    rw [View.next] at hs
    split_ifs at hs
    obtain rfl := Option.some.inj hs
    exact hv
  | act =>
    rw [View.next] at hs
    split_ifs at hs
    exact hv.act hs
  | irq i =>
    obtain ⟨⟨d, wakes⟩, hi, rfl⟩ := Option.map_eq_some_iff.mp hs
    cases wakes with
    | false => exact hv.interrupt hi
    | true => exact hv.interrupt hi

lemma Stands.returned {r : Res E α} (h : Stands disk p (.run q) d) (hr : q.result? = some r) :
    r = (exec p (seen disk)).1 ∧ writes p (seen disk) = [] := by
  cases h with
  | run hq hdisk hfree hoc =>
    have hres := hq.result
    have hwr := hq.writes
    cases q with
    | read s lba k => cases hr
    | write s lba data k => cases hr
    | _ =>
      cases hr
      exact ⟨hres, hwr.symm⟩

/-- **A program over the driver.** Whatever the drive answers and in whatever order the tasks are
polled, when no other task uses the driver: a program that has returned in a task has returned what
it returns alone on the disk, and it has stored nothing. A program that stores something when it is
alone never returns, and the disk stays as it was. -/
theorem task_returns_alone {n : ℕ} {s : Kernel.State (Stage S E α) Drive}
    (h : Runs sectorTask (fun _ => True) n (.run p) (.initial disk) s) :
    s.source.disk = disk ∧ ∀ q r, s.stage = .run q → q.result? = some r →
      r = (exec p (seen disk)).1 ∧ writes p (seen disk) = [] := by
  have hst : Stands disk p s.stage s.source := stands_of_reach (runs_inv h).2
  refine ⟨hst.disk_eq, fun q r hq hr => ?_⟩
  rw [hq] at hst
  exact hst.returned hr

/-- A program of one read. -/
def oneRead : Prog Unit UInt32 Sector Unit Sector := .read () 3 .ret

lemma exec_oneRead : (exec oneRead (seen numbered)).1 = .ok (numbered 3) :=
  congrArg (fun lba => Res.ok (numbered lba)) (DiskTask.addressed_of_lt (by decide))

/-- The read is answered before the first look. -/
theorem task_returns_alone_read :
    ∃ s q, Runs sectorTask (fun _ => True) 0 (.run oneRead) (.initial numbered) s ∧
      s.source.disk = numbered ∧ s.stage = .run q ∧
        q.result? = some (.ok (numbered 3)) := by
  have h : Runs sectorTask (fun _ => True) 0 (.run oneRead) (.initial numbered) _ :=
    runs_firstPoll _ _
  have h := Reach.step (e := Event.act) h trivial rfl
  have h := Reach.step (e := Event.irq (statusDrq, fun _ => 0)) h trivial rfl
  have h := Reach.step (e := Event.act) h trivial rfl
  obtain ⟨hdisk, hret⟩ := task_returns_alone h
  refine ⟨_, _, h, hdisk, rfl, ?_⟩
  rw [← exec_oneRead, ← (hret _ _ rfl rfl).1]
  rfl

end RustyOs.SectorTask
