import RustyOs.Ata
import RustyOs.Machine

/-!
Runs of the ATA driver.

The driver keeps one pending sector number, one buffer and two flags for all requests. The
handler infers the direction of a transfer from the flags, and a future takes the buffer when
the pending number is its own. Both are right only under conditions on the requests in flight,
found here as what the invariants of the runs need.
-/

namespace RustyOs.AtaRuns

open RustyOs.Ata RustyOs.Machine

variable {s s' : Sys} {e : Event} {disk : UInt32 → Sector} {a : Driver} {lba : UInt32}

/-! ### The handler and the futures -/

section handler

variable {status : UInt8} (hst : status &&& statusErr = 0 ∧ status &&& statusDrq ≠ 0) (port : Words)
include hst

lemma handle_write (h : a.writeComplete = false ∧ a.operationComplete = true) :
    onPrimaryAtaInterrupt status port a =
      ⟨{ a with writeComplete := true }, some (toWords a.sectorWriteBuffer), true⟩ := by
  rw [onPrimaryAtaInterrupt, if_neg (not_not.mpr hst.1), if_pos hst.2]
  exact if_pos h

lemma handle_read (h : ¬ (a.writeComplete = false ∧ a.operationComplete = true)) :
    onPrimaryAtaInterrupt status port a =
      ⟨{ a with sectorBuffer := ofWords port, operationComplete := true }, none, true⟩ := by
  rw [onPrimaryAtaInterrupt, if_neg (not_not.mpr hst.1), if_pos hst.2]
  exact if_neg h

lemma sent_iff (a : Driver) : (onPrimaryAtaInterrupt status port a).sent.isSome = true ↔
    a.writeComplete = false ∧ a.operationComplete = true := by
  by_cases hw : a.writeComplete = false ∧ a.operationComplete = true
  · simp [handle_write hst port hw, hw]
  · rw [handle_read hst port hw]
    simp [hw]

end handler

lemma checkRead_ne (h : a.pendingLba ≠ lba) : checkRead lba a = (a, none) :=
  if_neg fun hc => h hc.2

lemma checkRead_writeComplete (lba : UInt32) (a : Driver) :
    (checkRead lba a).1.writeComplete = a.writeComplete := by
  unfold checkRead
  split_ifs <;> rfl

lemma checkRead_operationComplete (lba : UInt32) (h : a.operationComplete = false) :
    (checkRead lba a).1.operationComplete = false := by
  unfold checkRead
  split_ifs
  · rfl
  · exact h

lemma checkWrite_operationComplete (lba : UInt32) (a : Driver) :
    (checkWrite lba a).1.operationComplete = a.operationComplete := by
  unfold checkWrite
  split_ifs <;> rfl

lemma checkWrite_writeComplete (lba : UInt32) (h : a.writeComplete = false) :
    (checkWrite lba a).1.writeComplete = false := by
  unfold checkWrite
  split_ifs
  · rfl
  · exact h

/-- **What an event does.** -/
lemma next_cases (h : s.next e = some s') :
    (∃ lba, e = .read lba ∧ s' = { s with
        driver := (readSectorAsync lba s.driver).1
        device := s.device ++ [(readSectorAsync lba s.driver).2]
        reads := lba :: s.reads }) ∨
      (∃ lba data, e = .write lba data ∧ s' = { s with
        driver := (writeSectorAsync lba data s.driver).1
        device := s.device ++ [(writeSectorAsync lba data s.driver).2]
        writes := lba :: s.writes }) ∨
      (∃ lba reads, e = .checkRead lba ∧ s' = { s with
        driver := (checkRead lba s.driver).1, reads := reads }) ∨
      (∃ lba writes, e = .checkWrite lba ∧ s' = { s with
        driver := (checkWrite lba s.driver).1, writes := writes }) ∨
      ∃ status junk cmd rest, e = .interrupt status junk ∧ s.device = cmd :: rest ∧ s' = { s with
        driver := (onPrimaryAtaInterrupt status (cmd.port s.disk junk) s.driver).driver
        disk := cmd.store s.disk
          (onPrimaryAtaInterrupt status (cmd.port s.disk junk) s.driver).sent
        device := rest } := by
  obtain ⟨⟨t, o⟩, hstep, rfl⟩ := Option.map_eq_some_iff.mp h
  cases e with
  | read lba => exact .inl ⟨lba, rfl, (Prod.mk.inj (Option.some_inj.mp hstep)).1.symm⟩
  | write lba data =>
    exact .inr (.inl ⟨lba, data, rfl, (Prod.mk.inj (Option.some_inj.mp hstep)).1.symm⟩)
  | checkRead lba =>
    refine .inr (.inr (.inl ⟨lba, t.reads, rfl, ?_⟩))
    simp only [Sys.step] at hstep
    split_ifs at hstep
    rcases hc : checkRead lba s.driver with ⟨a, _ | b⟩ <;> rw [hc] at hstep <;>
      obtain ⟨rfl, -⟩ := Prod.mk.inj (Option.some_inj.mp hstep) <;> rfl
  | checkWrite lba =>
    refine .inr (.inr (.inr (.inl ⟨lba, t.writes, rfl, ?_⟩)))
    simp only [Sys.step] at hstep
    split_ifs at hstep
    rcases hc : checkWrite lba s.driver with ⟨a, _ | _⟩ <;> rw [hc] at hstep <;>
      obtain ⟨rfl, -⟩ := Prod.mk.inj (Option.some_inj.mp hstep) <;> rfl
  | interrupt status junk =>
    refine .inr (.inr (.inr (.inr ?_)))
    simp only [Sys.step] at hstep
    rcases hd : s.device with _ | ⟨cmd, rest⟩
    · rw [hd] at hstep
      cases hstep
    · rw [hd] at hstep
      exact ⟨status, junk, cmd, rest, rfl, rfl, (Prod.mk.inj (Option.some_inj.mp hstep)).1.symm⟩

/-! ### The direction of a transfer -/

/-- A command is given only when the one before has been answered. -/
def OneAtATime (s : Sys) : Event → Prop
  | .read _ => s.device = []
  | .write _ _ => s.device = []
  | e => e.drq

/-- Moreover, a write is given while a finished read has not been fetched, and is not fetched
until the write has been answered. -/
def Armed (s : Sys) : Event → Prop
  | .read _ => s.device = []
  | .write _ _ => s.device = [] ∧ s.driver.operationComplete = true
  | .checkRead lba => ∀ cmd ∈ s.device, cmd.code = .writeSectors → lba ≠ s.driver.pendingLba
  | e => e.drq

/-- What the flags say about the command in flight. -/
structure Flags (s : Sys) : Prop where
  single : s.device.length ≤ 1
  write : ∀ cmd ∈ s.device, cmd.code = .writeSectors → s.driver.writeComplete = false
  read : ∀ cmd ∈ s.device, cmd.code = .readSectors → s.driver.operationComplete = false

lemma Flags.next (h : Flags s) (hok : OneAtATime s e) (hs : s.next e = some s') : Flags s' := by
  obtain ⟨h1, hw, hr⟩ := h
  obtain ⟨lba, rfl, rfl⟩ | ⟨lba, data, rfl, rfl⟩ | ⟨lba, reads, rfl, rfl⟩ |
      ⟨lba, writes, rfl, rfl⟩ |
    ⟨status, junk, cmd, rest, rfl, hd, rfl⟩ := next_cases hs
  · have hok : s.device = [] := hok
    refine ⟨?_, ?_, ?_⟩ <;> simp [hok, readSectorAsync]
  · have hok : s.device = [] := hok
    refine ⟨?_, ?_, ?_⟩ <;> simp [hok, writeSectorAsync]
  · refine ⟨h1, fun cmd hc hcode => ?_, fun cmd hc hcode => ?_⟩
    · exact (checkRead_writeComplete lba _).trans (hw cmd hc hcode)
    · exact checkRead_operationComplete lba (hr cmd hc hcode)
  · refine ⟨h1, fun cmd hc hcode => ?_, fun cmd hc hcode => ?_⟩
    · exact checkWrite_writeComplete lba (hw cmd hc hcode)
    · exact (checkWrite_operationComplete lba _).trans (hr cmd hc hcode)
  · have hrest : rest = [] := by
      rw [hd, List.length_cons] at h1
      exact List.length_eq_zero_iff.mp (by omega)
    subst hrest
    exact ⟨by simp, by simp, by simp⟩

lemma armed_next
    (h : ∀ cmd ∈ s.device, cmd.code = .writeSectors → s.driver.operationComplete = true)
    (hf : Flags s) (hok : Armed s e) (hs : s.next e = some s') :
    ∀ cmd ∈ s'.device, cmd.code = .writeSectors → s'.driver.operationComplete = true := by
  obtain ⟨lba, rfl, rfl⟩ | ⟨lba, data, rfl, rfl⟩ | ⟨lba, reads, rfl, rfl⟩ |
      ⟨lba, writes, rfl, rfl⟩ |
    ⟨status, junk, cmd, rest, rfl, hd, rfl⟩ := next_cases hs
  · have hok : s.device = [] := hok
    simp [hok, readSectorAsync]
  · have hok : s.device = [] ∧ s.driver.operationComplete = true := hok
    simp [hok.1, hok.2, writeSectorAsync]
  · intro cmd hc hcode
    have hne := hok cmd hc hcode
    simp only [checkRead_ne hne.symm]
    exact h cmd hc hcode
  · intro cmd hc hcode
    exact (checkWrite_operationComplete lba _).trans (h cmd hc hcode)
  · have h1 := hf.single
    rw [hd, List.length_cons] at h1
    have hrest : rest = [] := List.length_eq_zero_iff.mp (by omega)
    simp [hrest]

lemma Armed.oneAtATime (h : Armed s e) : OneAtATime s e := by
  cases e with
  | read lba => exact h
  | write lba data => exact h.1
  | checkRead lba => trivial
  | checkWrite lba => trivial
  | interrupt status junk => exact h

lemma flags_of_reach (h : Reach Sys.next OneAtATime (.initial disk) s) : Flags s :=
  h.inv ⟨by simp [Sys.initial], by simp [Sys.initial], by simp [Sys.initial]⟩
    fun _ _ _ hi hok hs => hi.next hok hs

/-- **When the handler goes the right way.** With one command at a time, the interrupt of a
command is handled in the direction of the command exactly when the command is a read or a
finished read is still to be fetched. This is so along every run in which a write is only given
with a finished read still to be fetched, that is not fetched before the write is answered. -/
theorem direction_agrees_iff (h : Reach Sys.next OneAtATime (.initial disk) s) {cmd : Command}
    {rest : List Command} (hd : s.device = cmd :: rest) {status : UInt8} (junk : Words)
    (hst : (Event.interrupt status junk).drq) :
    (((onPrimaryAtaInterrupt status (cmd.port s.disk junk) s.driver).sent.isSome = true ↔
          cmd.code = .writeSectors) ↔
        (cmd.code = .writeSectors → s.driver.operationComplete = true)) ∧
      (Reach Sys.next Armed (.initial disk) s →
        ((onPrimaryAtaInterrupt status (cmd.port s.disk junk) s.driver).sent.isSome = true ↔
          cmd.code = .writeSectors)) := by
  have hf := flags_of_reach h
  have hmem : cmd ∈ s.device := by simp [hd]
  have hiff : ((onPrimaryAtaInterrupt status (cmd.port s.disk junk) s.driver).sent.isSome = true ↔
      cmd.code = .writeSectors) ↔
        (cmd.code = .writeSectors → s.driver.operationComplete = true) := by
    rw [sent_iff hst (cmd.port s.disk junk)]
    cases hc : cmd.code with
    | readSectors => simp [hf.read cmd hmem hc]
    | writeSectors => simp [hf.write cmd hmem hc]
  refine ⟨hiff, fun harmed => hiff.mpr ?_⟩
  have hinv := harmed.inv (I := fun s => Flags s ∧ ∀ cmd ∈ s.device, cmd.code = .writeSectors →
      s.driver.operationComplete = true)
    ⟨⟨by simp [Sys.initial], by simp [Sys.initial], by simp [Sys.initial]⟩, by simp [Sys.initial]⟩
    fun _ _ _ hi hok hs => ⟨hi.1.next hok.oneAtATime hs, armed_next hi.2 hi.1 hok hs⟩
  exact hinv.2 cmd hmem

theorem direction_agrees_iff_write : ∃ s cmd, Reach Sys.next Armed (.initial fun _ _ => 0) s ∧
    s.device = [cmd] ∧ cmd.code = .writeSectors ∧
      (onPrimaryAtaInterrupt statusDrq (cmd.port s.disk fun _ => 0) s.driver).sent.isSome =
        true := by
  have hdrq : (Event.interrupt statusDrq fun _ => 0).drq := by
    simp only [Event.drq]
    decide
  have h₁ : Reach Sys.next Armed (.initial fun _ _ => 0) _ :=
    .step (e := Event.read 0) .start rfl rfl
  have h₂ := Reach.step (e := Event.interrupt statusDrq fun _ => 0) h₁ hdrq rfl
  have h₃ := Reach.step (e := Event.write 1 fun _ => 0) h₂ ⟨rfl, rfl⟩ rfl
  refine ⟨_, _, h₃, rfl, rfl, ?_⟩
  exact ((direction_agrees_iff (h₃.mono fun _ _ h => h.oneAtATime) rfl _ hdrq).2 h₃).mpr rfl

/-- The first write of all is handled as a read: no flag is set yet. -/
theorem first_write_received : ∃ (s : Sys) (cmd : Command),
    Reach Sys.next OneAtATime (.initial fun _ _ => 0) s ∧ s.device = [cmd] ∧
      cmd.code = .writeSectors ∧ (Event.interrupt statusDrq fun _ => 0).drq ∧
      (onPrimaryAtaInterrupt statusDrq (cmd.port s.disk fun _ => 0) s.driver).sent.isSome =
        false := by
  have h : Reach Sys.next OneAtATime (.initial fun _ _ => 0) _ :=
    .step (e := Event.write 1 fun _ => 7) .start rfl rfl
  refine ⟨_, _, h, rfl, rfl, ?_, rfl⟩
  simp only [Event.drq]
  decide

/-! ### Reads side by side -/

lemma device_mod (lba : UInt32) :
    (setRegisters lba).device.toNat % 16 = lba.toNat / 2 ^ 24 % 16 := by
  have hlow : ((lba >>> 24) &&& 0x0F).toUInt8.toNat = lba.toNat / 2 ^ 24 % 16 := by
    rw [UInt32.toNat_toUInt8, UInt32.toNat_and, UInt32.toNat_shiftRight]
    change ((lba.toNat >>> 24) &&& (2 ^ 4 - 1)) % 2 ^ 8 = _
    rw [Nat.and_two_pow_sub_one_eq_mod, Nat.shiftRight_eq_div_pow]
    omega
  change ((0xB0 ||| 0x40 : UInt8) ||| ((lba >>> 24) &&& 0x0F).toUInt8).toNat % 16 = _
  rw [UInt8.toNat_or, hlow]
  change (15 <<< 4 ||| _) % 16 = _
  rw [← Nat.shiftLeft_add_eq_or_of_lt (by omega), Nat.shiftLeft_eq]
  omega

lemma toNat_low_byte (x : UInt32) : (x &&& 0xFF).toUInt8.toNat = x.toNat % 2 ^ 8 := by
  rw [UInt32.toNat_toUInt8, UInt32.toNat_and]
  change (x.toNat &&& (2 ^ 8 - 1)) % 2 ^ 8 = _
  rw [Nat.and_two_pow_sub_one_eq_mod]
  omega

/-- The drive is asked for the low 28 bits of the sector number. -/
lemma setRegisters_lba (lba : UInt32) :
    (setRegisters lba).lba = UInt32.ofNat (lba.toNat % 2 ^ 28) := by
  have hmid : (setRegisters lba).lbaMid.toNat = lba.toNat / 2 ^ 8 % 2 ^ 8 := by
    rw [← Nat.shiftRight_eq_div_pow]
    exact toNat_low_byte (lba >>> 8)
  have hhigh : (setRegisters lba).lbaHigh.toNat = lba.toNat / 2 ^ 16 % 2 ^ 8 := by
    rw [← Nat.shiftRight_eq_div_pow]
    exact toNat_low_byte (lba >>> 16)
  have hlow : (setRegisters lba).lbaLow.toNat = lba.toNat % 2 ^ 8 := toNat_low_byte lba
  rw [Registers.lba, hlow, hmid, hhigh, device_mod]
  congr 1
  omega

/-- Reads only, and only of sectors 28 bits can address; while others are in flight, only of the
same sector. -/
def SameSector (s : Sys) : Event → Prop
  | .read lba => lba.toNat < 2 ^ 28 ∧ ∀ cmd ∈ s.device, cmd.registers.lba = lba
  | .write _ _ => False
  | e => e.drq

/-- All commands in flight are for the pending sector, and a finished read has it in the
buffer. -/
structure Coherent (disk : UInt32 → Sector) (s : Sys) : Prop where
  same : ∀ cmd ∈ s.device, cmd.code = .readSectors ∧ cmd.registers.lba = s.driver.pendingLba
  buffer : s.driver.operationComplete = true → s.driver.sectorBuffer = disk s.driver.pendingLba
  disk_eq : s.disk = disk

lemma port_read {cmd : Command} (h : cmd.code = .readSectors) (disk : UInt32 → Sector)
    (junk : Words) : cmd.port disk junk = toWords (disk cmd.registers.lba) := by
  rw [Command.port, h]

lemma store_read {cmd : Command} (h : cmd.code = .readSectors) (disk : UInt32 → Sector)
    (sent : Option Words) : cmd.store disk sent = disk := by
  simp only [Command.store, h]

lemma Coherent.checkRead (h : Coherent disk s) (lba : UInt32) (reads : List UInt32) :
    Coherent disk { s with driver := (checkRead lba s.driver).1, reads := reads } := by
  unfold Ata.checkRead
  split_ifs
  · exact ⟨h.same, fun hf => (by cases hf), h.disk_eq⟩
  · exact ⟨h.same, h.buffer, h.disk_eq⟩

lemma Coherent.checkWrite (h : Coherent disk s) (lba : UInt32) (writes : List UInt32) :
    Coherent disk { s with driver := (checkWrite lba s.driver).1, writes := writes } := by
  unfold Ata.checkWrite
  split_ifs
  · exact ⟨h.same, h.buffer, h.disk_eq⟩
  · exact ⟨h.same, h.buffer, h.disk_eq⟩

lemma Coherent.next (h : Coherent disk s) (hok : SameSector s e) (hs : s.next e = some s') :
    Coherent disk s' := by
  obtain ⟨lba, rfl, rfl⟩ | ⟨lba, data, rfl, rfl⟩ | ⟨lba, reads, rfl, rfl⟩ |
      ⟨lba, writes, rfl, rfl⟩ |
    ⟨status, junk, cmd, rest, rfl, hd, rfl⟩ := next_cases hs
  · obtain ⟨hlt, hsame⟩ := hok
    refine ⟨fun cmd hc => ?_, fun hf => (by cases hf), h.disk_eq⟩
    rcases List.mem_append.mp hc with hc | hc
    · exact ⟨(h.same cmd hc).1, hsame cmd hc⟩
    · obtain rfl := List.mem_singleton.mp hc
      refine ⟨rfl, (setRegisters_lba lba).trans ?_⟩
      rw [Nat.mod_eq_of_lt hlt, UInt32.ofNat_toNat]
      rfl
  · exact hok.elim
  · exact h.checkRead lba reads
  · exact h.checkWrite lba writes
  · obtain ⟨hcode, hlba⟩ := h.same cmd (by simp [hd])
    have hrest : ∀ c ∈ rest, c.code = .readSectors ∧ c.registers.lba = s.driver.pendingLba :=
      fun c hc => h.same c (by simp [hd, hc])
    by_cases hw : s.driver.writeComplete = false ∧ s.driver.operationComplete = true
    · -- a read not fetched yet makes the handler send: the buffer stays
      rw [handle_write hok _ hw]
      exact ⟨hrest, fun _ => h.buffer hw.2, (store_read hcode _ _).trans h.disk_eq⟩
    · rw [handle_read hok _ hw]
      refine ⟨hrest, fun _ => ?_, (store_read hcode _ _).trans h.disk_eq⟩
      change ofWords (cmd.port s.disk junk) = disk s.driver.pendingLba
      rw [port_read hcode, ofWords_toWords, hlba, h.disk_eq]

lemma step_checkRead_some {b : Sector} (h : s.step (.checkRead lba) = some (s', some b)) :
    s.driver.operationComplete = true ∧ s.driver.pendingLba = lba ∧ b = s.driver.sectorBuffer := by
  simp only [Sys.step] at h
  split_ifs at h
  by_cases hc : s.driver.operationComplete ∧ s.driver.pendingLba = lba
  · rw [checkRead, if_pos hc] at h
    exact ⟨hc.1, hc.2, (Option.some_inj.mp (Prod.mk.inj (Option.some_inj.mp h)).2).symm⟩
  · rw [checkRead, if_neg hc] at h
    cases h

/-- **Reads of one sector at a time return it.** Along every run of reads in which a read is
given only while all commands in flight are for its sector, a read that returns gives the
content of its sector. -/
theorem reads_own_sector (h : Reach Sys.next SameSector (.initial disk) s) {b : Sector}
    (hb : s.step (.checkRead lba) = some (s', some b)) : b = disk lba := by
  have hc : Coherent disk s := by
    refine h.inv ⟨by simp [Sys.initial], fun hf => (by cases hf), rfl⟩ ?_
    exact fun _ _ _ hi hok hs => hi.next hok hs
  obtain ⟨hoc, rfl, rfl⟩ := step_checkRead_some hb
  exact hc.buffer hoc

/-- A disk whose sectors differ. -/
def numbered : UInt32 → Sector := fun lba _ => lba.toUInt8

/-- Sector 3 is read twice at once; the first of the two reads returns, and when the second has
been answered and returned, sector 5 is read. -/
theorem reads_own_sector_overlapping : ∃ s s' b t t' c,
    Reach Sys.next SameSector (.initial numbered) s ∧ s.device.length = 1 ∧
      s.step (.checkRead 3) = some (s', some b) ∧ b = numbered 3 ∧
      Reach Sys.next SameSector (.initial numbered) t ∧
      t.step (.checkRead 5) = some (t', some c) ∧ c = numbered 5 := by
  have hdrq : (Event.interrupt statusDrq fun _ => 0).drq := by
    simp only [Event.drq]
    decide
  have h : Reach Sys.next SameSector (.initial numbered) _ :=
    .step (e := Event.read 3) .start ⟨by decide, by simp [Sys.initial]⟩ rfl
  have h := Reach.step (e := Event.read 3) h ⟨by decide, by decide⟩ rfl
  have h₁ := Reach.step (e := Event.interrupt statusDrq fun _ => 0) h hdrq rfl
  have h := Reach.step (e := Event.checkRead 3) h₁ trivial rfl
  have h := Reach.step (e := Event.interrupt statusDrq fun _ => 0) h hdrq rfl
  have h := Reach.step (e := Event.checkRead 3) h trivial rfl
  have h := Reach.step (e := Event.read 5) h ⟨by decide, by decide⟩ rfl
  have h₂ := Reach.step (e := Event.interrupt statusDrq fun _ => 0) h hdrq rfl
  exact ⟨_, _, _, _, _, _, h₁, rfl, rfl, reads_own_sector h₁ rfl, h₂, rfl,
    reads_own_sector h₂ rfl⟩

/-- Reads only, with a drive that answers. -/
def ReadsOnly (_ : Sys) : Event → Prop
  | .write _ _ => False
  | e => e.drq

/-- A second read is given before the first is answered, and takes the first one's sector. -/
theorem crossed_reads : ∃ (disk : UInt32 → Sector) (s s' : Sys) (lba : UInt32) (b : Sector),
    Reach Sys.next ReadsOnly (.initial disk) s ∧
      s.step (.checkRead lba) = some (s', some b) ∧ b ≠ disk lba := by
  have hdrq : (Event.interrupt statusDrq fun _ => 0).drq := by
    simp only [Event.drq]
    decide
  have h₁ : Reach Sys.next ReadsOnly (.initial numbered) _ :=
    .step (e := Event.read 1) .start trivial rfl
  have h₂ := Reach.step (e := Event.read 2) h₁ trivial rfl
  have h₃ := Reach.step (e := Event.interrupt statusDrq fun _ => 0) h₂ hdrq rfl
  refine ⟨numbered, _, _, 2, _, h₃, rfl, fun hb => ?_⟩
  have h0 := congrFun hb 0
  exact absurd h0 (by decide +kernel)

end RustyOs.AtaRuns
