import RustyOs.Ata

/-!
`read_sector` of the ATA driver and its queue of requests (`src/ata.rs`).

The synchronous read puts a request into a queue of 32 places before it gives the command to the
drive. The handler of the interrupt takes the data and marks the operation complete; neither it
nor anything else takes the request out of the queue. So the queue holds all the requests since
`init`, and the places are used up by the first 32, complete or not.
-/

namespace RustyOs.AtaQueue

open RustyOs.Ata

inductive DiskRequest
  | read (lba : UInt32)
  | write (lba : UInt32)
  deriving DecidableEq

/-- The statics of the driver with `DISK_REQUEST_QUEUE`, oldest request first, once it is made,
and whether `DISK_WAKER` is. -/
structure Statics where
  driver : Driver
  queue : Option (List DiskRequest)
  waker : Bool

def queueCapacity : ℕ := 32

structure AtaDriver where
  initialized : Bool

def AtaDriver.new : AtaDriver := ⟨false⟩

/-- `init`; it panics when another driver has made the queue or the waker. -/
def AtaDriver.init (self : AtaDriver) (s : Statics) : Option (AtaDriver × Statics) :=
  if self.initialized then some (self, s)
  else if s.queue.isSome then none
  else if s.waker then none
  else some (⟨true⟩, { s with queue := some [], waker := true })

inductive ReadError
  | notInitialized
  | full
  deriving DecidableEq

def ReadError.message : ReadError → String
  | .notInitialized => "ATA request queue not initialized"
  | .full => "ATA request queue full"

/-- `issue_read_command`. -/
def issueReadCommand (lba : UInt32) : Command := ⟨.readSectors, setRegisters lba⟩

/-- `read_sector`: the statics and the command to the drive; an error changes nothing. -/
def readSector (lba : UInt32) (s : Statics) : Except ReadError (Statics × Command) :=
  match s.queue with
  | none => .error .notInitialized
  | some queue =>
    if queue.length < queueCapacity then
      .ok ({ s with
          queue := some (queue ++ [.read lba])
          driver := { s.driver with pendingLba := lba, operationComplete := false } },
        issueReadCommand lba)
    else .error .full

/-- The interrupt; the handler does not touch the queue. -/
def onInterrupt (status : UInt8) (port : Words) (s : Statics) : Statics :=
  { s with driver := (onPrimaryAtaInterrupt status port s.driver).driver }

/-- A call with the interrupt that answers its command: the status, and what the drive has at
the data port for the command. -/
structure Turn where
  lba : UInt32
  status : UInt8
  port : Command → Words

/-- The drive has the data and reports no error. -/
def Turn.Drq (t : Turn) : Prop := t.status &&& statusErr = 0 ∧ t.status &&& statusDrq ≠ 0

/-- The call, and the interrupt if there is a command to answer. -/
def Turn.run (t : Turn) (s : Statics) : Statics × Except ReadError Unit :=
  match readSector t.lba s with
  | .ok (s', cmd) => (onInterrupt t.status (t.port cmd) s', .ok ())
  | .error e => (s, .error e)

/-- One turn after the other, and what the calls return. -/
def runTurns : List Turn → Statics → Statics × List (Except ReadError Unit)
  | [], s => (s, [])
  | t :: ts, s =>
    let (s', r) := t.run s
    let (s'', rs) := runTurns ts s'
    (s'', r :: rs)

/-! ### One turn -/

variable {t : Turn} {s : Statics} {queue : List DiskRequest}

lemma run_of_lt (h : t.Drq) (hq : s.queue = some queue) (hlt : queue.length < queueCapacity) :
    t.run s =
      ({ s with
          queue := some (queue ++ [.read t.lba])
          driver := { s.driver with
            pendingLba := t.lba
            operationComplete := true
            sectorBuffer := ofWords (t.port (issueReadCommand t.lba)) } }, .ok ()) := by
  obtain ⟨herr, hdrq⟩ := h
  simp [Turn.run, readSector, hq, hlt, onInterrupt, onPrimaryAtaInterrupt, herr, hdrq]

lemma run_of_full (hq : s.queue = some queue) (hfull : queueCapacity ≤ queue.length) :
    t.run s = (s, .error .full) := by
  simp [Turn.run, readSector, hq, not_lt.mpr hfull]

/-! ### Any number of turns -/

lemma results_cons (t : Turn) (ts : List Turn) (s : Statics) :
    (runTurns (t :: ts) s).2 = (t.run s).2 :: (runTurns ts (t.run s).1).2 := rfl

lemma runTurns_result {ts : List Turn} (hts : ∀ t ∈ ts, t.Drq) (hq : s.queue = some queue)
    {k : ℕ} (hk : k < ts.length) :
    (runTurns ts s).2[k]? =
      some (if queue.length + k < queueCapacity then .ok () else .error .full) := by
  induction ts generalizing s queue k with
  | nil => cases hk
  | cons t ts ih =>
    obtain ⟨ht, hts⟩ := List.forall_mem_cons.mp hts
    rw [results_cons]
    rcases Nat.lt_or_ge queue.length queueCapacity with hlt | hge
    · have hrun := run_of_lt ht hq hlt
      cases k with
      | zero => rw [hrun, List.getElem?_cons_zero, Nat.add_zero, if_pos hlt]
      | succ k =>
        have hq' : (t.run s).1.queue = some (queue ++ [.read t.lba]) := by rw [hrun]
        rw [List.getElem?_cons_succ, ih hts hq' (Nat.lt_of_succ_lt_succ hk), List.length_append,
          List.length_singleton, Nat.add_assoc, Nat.add_comm 1]
    · -- no place: the call leaves all as it was
      have hrun := run_of_full (t := t) hq hge
      rw [if_neg (by omega), hrun]
      cases k with
      | zero => rfl
      | succ k =>
        rw [List.getElem?_cons_succ, ih hts hq (Nat.lt_of_succ_lt_succ hk), if_neg (by omega)]

lemma length_runTurns (ts : List Turn) (s : Statics) : (runTurns ts s).2.length = ts.length := by
  induction ts generalizing s with
  | nil => rfl
  | cons t ts ih => rw [results_cons, List.length_cons, ih, List.length_cons]

lemma runTurns_complete {ts : List Turn} (hts : ∀ t ∈ ts, t.Drq) (hq : s.queue = some queue)
    (hdone : s.driver.operationComplete = true) :
    (runTurns ts s).1.driver.operationComplete = true := by
  induction ts generalizing s queue with
  | nil => exact hdone
  | cons t ts ih =>
    obtain ⟨ht, hts⟩ := List.forall_mem_cons.mp hts
    rcases Nat.lt_or_ge queue.length queueCapacity with hlt | hge
    · rw [runTurns, run_of_lt ht hq hlt]
      exact ih hts rfl rfl
    · rw [runTurns, run_of_full hq hge]
      exact ih hts hq hdone

lemma queue_of_init {driver : AtaDriver} {s₀ : Statics}
    (h : AtaDriver.new.init s = some (driver, s₀)) : s₀.queue = some [] := by
  simp only [AtaDriver.init, AtaDriver.new, Bool.false_eq_true, if_false] at h
  split_ifs at h
  obtain ⟨-, rfl⟩ := Prod.mk.inj (Option.some.inj h)
  rfl

/-- **The queue is used up by the first 32 reads.** After `init`, with each read complete before
the next is asked for: a call returns if fewer than 32 were made before it, and reports a full
queue otherwise. So all of them return exactly when there are at most 32. -/
theorem reads_return_iff {driver : AtaDriver} {s₀ : Statics}
    (hinit : AtaDriver.new.init s = some (driver, s₀)) (ts : List Turn) (hts : ∀ t ∈ ts, t.Drq) :
    ((∀ r ∈ (runTurns ts s₀).2, r = .ok ()) ↔ ts.length ≤ 32) ∧
      (∀ k < ts.length, (runTurns ts s₀).2[k]? =
        some (if k < 32 then .ok () else .error .full)) ∧
      (ts ≠ [] → (runTurns ts s₀).1.driver.operationComplete = true) := by
  have hq := queue_of_init hinit
  have hcall : ∀ k < ts.length, (runTurns ts s₀).2[k]? =
      some (if k < 32 then .ok () else .error .full) := by
    intro k hk
    have h := runTurns_result hts hq hk
    rwa [List.length_nil, Nat.zero_add] at h
  refine ⟨⟨fun hall => ?_, fun hle r hr => ?_⟩, hcall, fun hne => ?_⟩
  · -- the call after the first 32 would have to return
    by_contra hgt
    have h := hcall 32 (not_le.mp hgt)
    rw [if_neg (lt_irrefl 32)] at h
    cases hall _ (List.mem_of_getElem? h)
  · obtain ⟨k, hk, rfl⟩ := List.mem_iff_getElem.mp hr
    rw [length_runTurns] at hk
    have h := hcall k hk
    rw [if_pos (hk.trans_le hle), List.getElem?_eq_some_iff] at h
    exact h.2
  · obtain ⟨t, ts, rfl⟩ := List.exists_cons_of_ne_nil hne
    obtain ⟨ht, hts⟩ := List.forall_mem_cons.mp hts
    rw [runTurns, run_of_lt ht hq (by decide : 0 < 32)]
    exact runTurns_complete hts rfl rfl

/-- A read of sector `0` answered with zeros. -/
def zeroRead : Turn := ⟨0, statusDrq, fun _ _ => 0⟩

def fresh : Statics := ⟨Driver.initial, none, false⟩

/-- Thirty-two reads return. -/
theorem reads_return_iff_32 : ∃ driver s₀, AtaDriver.new.init fresh = some (driver, s₀) ∧
    ∀ r ∈ (runTurns (List.replicate 32 zeroRead) s₀).2, r = .ok () := by
  have hts : ∀ t ∈ List.replicate 32 zeroRead, t.Drq := by
    intro t ht
    obtain rfl := List.eq_of_mem_replicate ht
    exact ⟨by decide, by decide⟩
  refine ⟨_, _, rfl, (reads_return_iff (s := fresh) rfl _ hts).1.mpr ?_⟩
  rw [List.length_replicate]

/-- After 32 complete reads, with nothing in flight, the next one reports a full queue. -/
theorem queue_full_when_idle : ∃ driver s₀ s, AtaDriver.new.init fresh = some (driver, s₀) ∧
    (runTurns (List.replicate 32 zeroRead) s₀).1 = s ∧ s.driver.operationComplete = true ∧
      (zeroRead.run s).2 = .error .full ∧
      ReadError.full.message = "ATA request queue full" :=
  ⟨_, _, _, rfl, rfl, by decide +kernel, by decide +kernel, rfl⟩

end RustyOs.AtaQueue
