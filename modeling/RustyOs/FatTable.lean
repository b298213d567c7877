import RustyOs.Fat32
import RustyOs.Links

/-!
The file allocation table as a map from clusters to words.

The three methods that touch the table address it differently: the chain walk and
`set_fat_entry` go from a cluster to a sector and an offset, the free-cluster scan goes over
sectors and offsets and comes back to a cluster. Here each becomes what it does to the map.
-/

namespace RustyOs.FatTable

open RustyOs.Word32 RustyOs.BlockProg RustyOs.BlockProg.Prog RustyOs.Links RustyOs.Fat32

lemma mod_512_lt (i : ℕ) : i % 512 < 512 := Nat.mod_lt i (by decide)

/-- The place in its sector of byte `i` of something that starts with a sector. -/
def byteIndex (i : ℕ) : Fin 512 := ⟨i % 512, mod_512_lt i⟩

variable (bs : BootSector)

/-- The sector that holds the entry of a cluster in the primary table. -/
def fatLba (c : UInt32) : UInt32 :=
  UInt32.ofNat (bs.reservedSectors.toNat + c.toNat / 128)

/-- The sector that holds the entry of a cluster in the second table. -/
def backupLba (c : UInt32) : UInt32 :=
  UInt32.ofNat (bs.reservedSectors.toNat + c.toNat / 128 + bs.sectorsPerFat32.toNat)

/-- The number of entries of a table. -/
def entryCount : ℕ := 128 * bs.sectorsPerFat32.toNat

/-- The entry of a cluster in the primary table. -/
def fatWord (d : Disk) (c : UInt32) : UInt32 :=
  getWord (d (fatLba bs c)) (fatOffset c) (fatOffset_lt c)

/-- The cluster an entry leads to, unless it marks the end. -/
def fatNext (f : UInt32 → UInt32) (c : UInt32) : Option UInt32 :=
  if endOfChain ≤ f c then none else some (f c)

lemma toNat_fatLba (c : UInt32) :
    (fatLba bs c).toNat = bs.reservedSectors.toNat + c.toNat / 128 := by
  have h := bs.reservedSectors.toNat_lt
  have hc := c.toNat_lt
  exact toNat_ofNat32 (by omega)

lemma fatSectorNumber_eq (c : UInt32) : fatSectorNumber bs c = some (fatLba bs c) := by
  have hc := c.toNat_lt
  rw [fatSectorNumber, add32_eq_some, toNat_fatLba, BootSector.fatStartSector,
    UInt16.toNat_toUInt32, toNat_ofNat32 (by omega)]
  omega

/-! ### Following a chain -/

lemma fatNext_eq_none {f : UInt32 → UInt32} {c : UInt32} :
    fatNext f c = none ↔ endOfChain ≤ f c := by
  unfold fatNext
  split_ifs with h
  · simp [h]
  · simp [h]

lemma fatNext_eq_some {f : UInt32 → UInt32} {c c' : UInt32} :
    fatNext f c = some c' ↔ f c = c' ∧ f c < endOfChain := by
  unfold fatNext
  split_ifs with h
  · simp [UInt32.not_lt.mpr h]
  · simp [UInt32.not_le.mp h]

lemma followFrom_succ (n : ℕ) (c : UInt32) (acc : List UInt32) :
    followFrom bs (n + 1) c acc = .read .chainRead (fatLba bs c) fun s =>
      if endOfChain ≤ getWord s (fatOffset c) (fatOffset_lt c) then .ret (acc ++ [c])
      else followFrom bs n (getWord s (fatOffset c) (fatOffset_lt c)) (acc ++ [c]) := by
  rw [followFrom, fatSectorNumber_eq]
  rfl

lemma exec_followFrom (d : Disk) (n : ℕ) (c : UInt32) (acc : List UInt32) :
    exec (followFrom bs n c acc) d = match walk (fatNext (fatWord bs d)) n c with
      | some l => (.ok (acc ++ l), d)
      | none => (.err .chainTooLong, d) := by
  induction n generalizing c acc with
  | zero => rfl
  | succ n ih =>
    have hstep : exec (followFrom bs (n + 1) c acc) d =
        exec (if endOfChain ≤ fatWord bs d c then .ret (acc ++ [c])
          else followFrom bs n (fatWord bs d c) (acc ++ [c])) d := by
      rw [followFrom_succ]
      rfl
    rw [hstep, walk, fatNext]
    split_ifs with h
    · rfl
    · rw [ih]
      rcases hw : walk (fatNext (fatWord bs d)) n (fatWord bs d c) with _ | l
      · simp [hw]
      · simp [hw]

lemma exec_followClusterChain (d : Disk) (c : UInt32) :
    exec (followClusterChain bs c) d =
      match walk (fatNext (fatWord bs d)) maxIterations c with
      | some l => (.ok l, d)
      | none => (.err .chainTooLong, d) := by
  rw [followClusterChain, exec_followFrom]
  rfl

lemma exec_followClusterChain_ok {d : Disk} {c : UInt32} {l : List UInt32} :
    (exec (followClusterChain bs c) d).1 = .ok l ↔
      Path (fatNext (fatWord bs d)) c l ∧ l.length ≤ maxIterations := by
  rw [exec_followClusterChain, ← walk_eq_some]
  rcases walk (fatNext (fatWord bs d)) maxIterations c with _ | l' <;> simp

/-! ### Setting an entry -/

/-- The disk after `set_fat_entry`. -/
def setEntry (d : Disk) (c v : UInt32) : Disk :=
  let data := setWord (d (fatLba bs c)) (fatOffset c) v
  let d' := Function.update d (fatLba bs c) data
  if 1 < bs.numFats then Function.update d' (backupLba bs c) data else d'

/-- The table is small enough for its sectors and entries to be counted in 32 bits. -/
def TableFits : Prop := bs.sectorsPerFat32.toNat ≤ 2 ^ 23

variable {bs} {d : Disk} {c c' v : UInt32}

lemma toNat_backupLba (hf : TableFits bs) (c : UInt32) : (backupLba bs c).toNat =
    bs.reservedSectors.toNat + c.toNat / 128 + bs.sectorsPerFat32.toNat := by
  have h := bs.reservedSectors.toNat_lt
  have hc := c.toNat_lt
  unfold TableFits at hf
  exact toNat_ofNat32 (by omega)

lemma setFatEntry_eq (hf : TableFits bs) (c v : UInt32) :
    setFatEntry bs c v = .read .entryRead (fatLba bs c) fun s =>
      .write .entryWrite (fatLba bs c) (setWord s (fatOffset c) v) <|
        if 1 < bs.numFats then
          .write .backupWrite (backupLba bs c) (setWord s (fatOffset c) v) (.ret ())
        else .ret () := by
  have hb : add32 (fatLba bs c) bs.sectorsPerFat32 = some (backupLba bs c) := by
    rw [add32_eq_some, toNat_fatLba, toNat_backupLba hf]
  simp only [setFatEntry, fatSectorNumber_eq, ofOption_some, readSector, writeSector, ret_bind,
    read_bind, write_bind, hb, pure_eq]

lemma exec_setFatEntry (hf : TableFits bs) (d : Disk) (c v : UInt32) :
    exec (setFatEntry bs c v) d = (.ok (), setEntry bs d c v) := by
  rw [setFatEntry_eq hf, setEntry, exec_read, exec_write]
  split_ifs <;> rfl

lemma fatWord_congr {d d' : Disk} (h : d' (fatLba bs c) = d (fatLba bs c)) :
    fatWord bs d' c = fatWord bs d c := by
  rw [fatWord, h, fatWord]

lemma backupLba_ne_fatLba (hf : TableFits bs) (c : UInt32) (hc' : c'.toNat < entryCount bs) :
    fatLba bs c' ≠ backupLba bs c := by
  unfold entryCount at hc'
  intro h
  have := congrArg UInt32.toNat h
  rw [toNat_fatLba, toNat_backupLba hf] at this
  omega

lemma fatWord_update_fatLba (d : Disk) (c v c' : UInt32) :
    fatWord bs (Function.update d (fatLba bs c) (setWord (d (fatLba bs c)) (fatOffset c) v)) c' =
      Function.update (fatWord bs d) c v c' := by
  by_cases hc : c' = c
  · subst hc
    rw [Function.update_self, fatWord, Function.update_self, getWord_setWord_self]
  · rw [Function.update_of_ne hc, fatWord]
    by_cases hlba : fatLba bs c' = fatLba bs c
    · -- same sector, another word of it
      have h := congrArg UInt32.toNat hlba
      rw [toNat_fatLba, toNat_fatLba] at h
      have hne : c'.toNat ≠ c.toNat := fun h => hc (UInt32.toNat_inj.mp h)
      rw [hlba, Function.update_self, getWord_setWord_of_ne, fatWord, hlba]
      unfold fatOffset
      omega
    · rw [Function.update_of_ne hlba, fatWord]

/-- **Setting an entry updates the map at one cluster.** -/
theorem fatWord_setEntry (hf : TableFits bs) (hc' : c'.toNat < entryCount bs) :
    fatWord bs (setEntry bs d c v) c' = Function.update (fatWord bs d) c v c' := by
  rw [← fatWord_update_fatLba, setEntry]
  split_ifs
  · exact fatWord_congr (Function.update_of_ne (backupLba_ne_fatLba hf c hc') _ _)
  · rfl

/-- The sectors of the tables that `set_fat_entry` keeps. -/
def tableSectors (bs : BootSector) : ℕ := min bs.numFats.toNat 2 * bs.sectorsPerFat32.toNat

lemma setEntry_of_outside (hf : TableFits bs) (hc : c.toNat < entryCount bs) {lba : UInt32}
    (hn : 1 ≤ bs.numFats.toNat)
    (h : lba.toNat < bs.reservedSectors.toNat ∨
      bs.reservedSectors.toNat + tableSectors bs ≤ lba.toNat) :
    setEntry bs d c v lba = d lba := by
  unfold entryCount at hc
  unfold tableSectors at h
  have hone : bs.sectorsPerFat32.toNat ≤ min bs.numFats.toNat 2 * bs.sectorsPerFat32.toNat :=
    Nat.le_mul_of_pos_left _ (by omega)
  have h1 : lba ≠ fatLba bs c := by
    rintro rfl
    rw [toNat_fatLba] at h
    omega
  unfold setEntry
  split_ifs with hnf
  · have htwo : min bs.numFats.toNat 2 = 2 := by
      have : 1 < bs.numFats.toNat := hnf
      omega
    have h2 : lba ≠ backupLba bs c := by
      rintro rfl
      rw [toNat_backupLba hf, htwo] at h
      omega
    simp [h1, h2]
  · simp [h1]

/-! ### Searching for a free cluster -/

/-- A cluster number the table has an entry for, the two reserved ones apart. -/
def InRange (bs : BootSector) (c : UInt32) : Prop := 2 ≤ c.toNat ∧ c.toNat < entryCount bs

lemma InRange.ne_zero (hc : InRange bs c) : c ≠ 0 := by
  rintro rfl
  exact absurd hc.1 (by decide)

lemma clusterIndex_eq {idx : ℕ} (hidx : idx < 2 ^ 23) (w : Fin 128) :
    clusterIndex (UInt32.ofNat idx) (UInt32.ofNat (4 * w.val)) =
      some (UInt32.ofNat (128 * idx + w.val)) := by
  have hw := w.isLt
  have h1 : mul32 (UInt32.ofNat idx) 512 = some (UInt32.ofNat (idx * 512)) := by
    rw [mul32_eq_some, toNat_ofNat32 (by omega), toNat_ofNat32 (by omega)]
    rfl
  have h2 : add32 (UInt32.ofNat (idx * 512)) (UInt32.ofNat (4 * w.val)) =
      some (UInt32.ofNat (idx * 512 + 4 * w.val)) := by
    rw [add32_eq_some, toNat_ofNat32 (by omega), toNat_ofNat32 (by omega),
      toNat_ofNat32 (by omega)]
  have h3 : UInt32.ofNat (idx * 512 + 4 * w.val) / 4 = UInt32.ofNat (128 * idx + w.val) := by
    rw [← UInt32.toNat_inj, UInt32.toNat_div, toNat_ofNat32 (by omega), toNat_ofNat32 (by omega)]
    change (idx * 512 + 4 * w.val) / 4 = _
    omega
  simp only [clusterIndex, h1, h2, h3, Option.bind_eq_bind, Option.bind_some, Option.pure_def]

lemma clusterIndex_eq_some {idx : ℕ} (hidx : idx < 2 ^ 32) {w : Fin 128}
    (h : clusterIndex (UInt32.ofNat idx) (UInt32.ofNat (4 * w.val)) = some c) :
    c.toNat = 128 * idx + w.val := by
  have hw := w.isLt
  obtain ⟨base, hbase, h⟩ := Option.bind_eq_some_iff.mp h
  obtain ⟨sum, hsum, h⟩ := Option.bind_eq_some_iff.mp h
  obtain rfl := Option.some.inj h
  rw [mul32_eq_some, toNat_ofNat32 hidx] at hbase
  rw [add32_eq_some, toNat_ofNat32 (by omega)] at hsum
  have h512 : (512 : UInt32).toNat = 512 := rfl
  rw [UInt32.toNat_div]
  change sum.toNat / 4 = _
  rw [h512] at hbase
  omega

/-- Whether the scan of sector `idx` stops at word `w`. -/
def stopsAt (fatData : Sector) (idx : ℕ) (w : Fin 128) : Bool :=
  getWord fatData (4 * w.val) (wordOffset_lt w) = 0 ∧ 2 ≤ 128 * idx + w.val

lemma scanSector_find (fatData : Sector) {idx : ℕ} (hidx : idx < 2 ^ 32) (ws : List (Fin 128)) :
    scanSector fatData (UInt32.ofNat idx) ws =
      (ws.find? (stopsAt fatData idx)).elim (some none) fun w =>
        (clusterIndex (UInt32.ofNat idx) (UInt32.ofNat (4 * w.val))).map some := by
  induction ws with
  | nil => rfl
  | cons w ws ih =>
    rw [scanSector]
    by_cases h0 : getWord fatData (4 * w.val) (wordOffset_lt w) = 0
    · rw [if_pos h0]
      by_cases h2 : 2 ≤ 128 * idx + w.val
      · have hs : stopsAt fatData idx w = true := by simp [stopsAt, h0, h2]
        rw [List.find?_cons_of_pos hs, Option.elim_some]
        rcases hc : clusterIndex (UInt32.ofNat idx) (UInt32.ofNat (4 * w.val)) with _ | c
        · rfl
        · have hle : (2 : UInt32) ≤ c := by
            rw [UInt32.le_iff_toNat_le, clusterIndex_eq_some hidx hc]
            exact h2
          exact if_pos hle
      · -- the two entries in front are passed over
        have hs : ¬ stopsAt fatData idx w = true := by simp [stopsAt, h2]
        have hlt : ¬ (2 : UInt32) ≤ UInt32.ofNat (128 * idx + w.val) := by
          rw [UInt32.le_iff_toNat_le, toNat_ofNat32 (by omega)]
          exact h2
        rw [List.find?_cons_of_neg hs, ← ih, clusterIndex_eq (by omega) w]
        exact if_neg hlt
    · have hs : ¬ stopsAt fatData idx w = true := by simp [stopsAt, h0]
      rw [if_neg h0, List.find?_cons_of_neg hs, ih]

lemma scanSector_eq (fatData : Sector) {idx : ℕ} (hidx : idx < 2 ^ 23) (ws : List (Fin 128)) :
    scanSector fatData (UInt32.ofNat idx) ws =
      some ((ws.find? (stopsAt fatData idx)).map fun w => UInt32.ofNat (128 * idx + w.val)) := by
  rw [scanSector_find fatData (by omega)]
  rcases ws.find? (stopsAt fatData idx) with _ | w
  · rfl
  · rw [Option.elim_some, clusterIndex_eq hidx]
    rfl

lemma fatWord_eq_scan {idx : ℕ} (hidx : idx < 2 ^ 23) (w : Fin 128) :
    fatWord bs d (UInt32.ofNat (128 * idx + w.val)) =
      getWord (d (UInt32.ofNat (bs.reservedSectors.toNat + idx))) (4 * w.val)
        (wordOffset_lt w) := by
  have hw := w.isLt
  have hn : (UInt32.ofNat (128 * idx + w.val)).toNat = 128 * idx + w.val :=
    toNat_ofNat32 (by omega)
  have hlba : fatLba bs (UInt32.ofNat (128 * idx + w.val)) =
      UInt32.ofNat (bs.reservedSectors.toNat + idx) := by
    rw [fatLba, hn, show (128 * idx + w.val) / 128 = idx by omega]
  have hoff : fatOffset (UInt32.ofNat (128 * idx + w.val)) = 4 * w.val := by
    rw [fatOffset, hn]; omega
  simp only [fatWord, hlba, hoff]

/-- No cluster numbered from `a` up to `b` is free. -/
def NoneFree (bs : BootSector) (d : Disk) (a b : ℕ) : Prop :=
  ∀ c : UInt32, 2 ≤ c.toNat → a ≤ c.toNat → c.toNat < b → fatWord bs d c ≠ 0

lemma exists_word {idx : ℕ} (h1 : 128 * idx ≤ c.toNat) (h2 : c.toNat < 128 * (idx + 1)) :
    ∃ w : Fin 128, c = UInt32.ofNat (128 * idx + w.val) ∧ c.toNat = 128 * idx + w.val := by
  refine ⟨⟨c.toNat - 128 * idx, by omega⟩, ?_, by simp only; omega⟩
  have hc := c.toNat_lt
  rw [← UInt32.toNat_inj, toNat_ofNat32 (by simp only; omega)]
  simp only
  omega

lemma NoneFree.append {a b e : ℕ} (h₁ : NoneFree bs d a b) (h₂ : NoneFree bs d b e) :
    NoneFree bs d a e := by
  intro c h2 ha he
  rcases Nat.lt_or_ge c.toNat b with hb | hb
  · exact h₁ c h2 ha hb
  · exact h₂ c h2 hb he

lemma noneFree_of_scan {idx m : ℕ} (hidx : idx < 2 ^ 23) (hm : m ≤ 128)
    (h : ∀ w : Fin 128, w.val < m →
      stopsAt (d (UInt32.ofNat (bs.reservedSectors.toNat + idx))) idx w = false) :
    NoneFree bs d (128 * idx) (128 * idx + m) := by
  intro c h2 hlo hhi hzero
  obtain ⟨w, hc, hcn⟩ := exists_word hlo (by omega)
  have hpass := h w (by omega)
  rw [hc, fatWord_eq_scan hidx] at hzero
  simp only [stopsAt, hzero, true_and, decide_eq_false_iff_not] at hpass
  omega

lemma findFreeFrom_succ (bs : BootSector) (n : ℕ) {idx : ℕ} (hidx : idx < 2 ^ 23) :
    findFreeFrom bs (n + 1) idx =
      .read .scanRead (UInt32.ofNat (bs.reservedSectors.toNat + idx)) fun fatData =>
        match (List.finRange 128).find? (stopsAt fatData idx) with
        | some w => .ret (UInt32.ofNat (128 * idx + w.val))
        | none => findFreeFrom bs n (idx + 1) := by
  have hres := bs.reservedSectors.toNat_lt
  have hlba : add32 bs.fatStartSector (UInt32.ofNat idx) =
      some (UInt32.ofNat (bs.reservedSectors.toNat + idx)) := by
    rw [add32_eq_some, toNat_ofNat32 (by omega), toNat_ofNat32 (by omega),
      BootSector.fatStartSector, UInt16.toNat_toUInt32]
  rw [findFreeFrom, hlba, ofOption_some, ret_bind, readSector, read_bind]
  congr 1
  funext fatData
  rw [ret_bind, scanSector_eq fatData hidx, ofOption_some, ret_bind]
  cases (List.finRange 128).find? (stopsAt fatData idx) <;> rfl

lemma exec_findFreeFrom (bs : BootSector) (d : Disk) (n idx : ℕ) (hidx : idx + n ≤ 2 ^ 23) :
    (∃ c : UInt32, exec (findFreeFrom bs n idx) d = (.ok c, d) ∧ 2 ≤ c.toNat ∧
        128 * idx ≤ c.toNat ∧ c.toNat < 128 * (idx + n) ∧ fatWord bs d c = 0 ∧
        NoneFree bs d (128 * idx) c.toNat) ∨
      (exec (findFreeFrom bs n idx) d = (.err .noFreeClusters, d) ∧
        NoneFree bs d (128 * idx) (128 * (idx + n))) := by
  induction n generalizing idx with
  | zero => exact .inr ⟨rfl, fun c _ h1 h2 => by omega⟩
  | succ n ih =>
    have hlt : idx < 2 ^ 23 := by omega
    rw [findFreeFrom_succ bs n hlt, exec_read]
    set fatData := d (UInt32.ofNat (bs.reservedSectors.toNat + idx)) with hdata
    rcases hfind : (List.finRange 128).find? (stopsAt fatData idx) with _ | w
    · -- nothing free in this sector: the search goes on behind it
      rw [← Fin.find?_eq_find?_finRange, Fin.find?_eq_none_iff] at hfind
      have hnone : NoneFree bs d (128 * idx) (128 * (idx + 1)) :=
        noneFree_of_scan hlt (le_refl 128) fun w _ => hfind w
      rcases ih (idx + 1) (by omega) with ⟨c, he, h2, hlo, hhi, h0, hnf⟩ | ⟨he, hnf⟩
      · exact .inl ⟨c, he, h2, by omega, by omega, h0, hnone.append hnf⟩
      · rw [Nat.add_right_comm] at hnf
        exact .inr ⟨he, hnone.append hnf⟩
    · rw [← Fin.find?_eq_find?_finRange, Fin.find?_eq_some_iff] at hfind
      obtain ⟨hw, hfirst⟩ := hfind
      have hwl := w.isLt
      have hn : (UInt32.ofNat (128 * idx + w.val)).toNat = 128 * idx + w.val :=
        toNat_ofNat32 (by omega)
      simp only [stopsAt, decide_eq_true_eq] at hw
      refine .inl ⟨UInt32.ofNat (128 * idx + w.val), rfl, by omega, by omega, by omega, ?_, ?_⟩
      · rw [fatWord_eq_scan hlt, ← hdata]
        exact hw.1
      · rw [hn]
        exact noneFree_of_scan hlt hwl.le fun w' hw' => hfirst w' hw'

/-- **The search finds the least free cluster, and fails only when none is free.** -/
theorem exec_findFreeCluster (hf : TableFits bs) (d : Disk) :
    (∃ c : UInt32, exec (findFreeCluster bs) d = (.ok c, d) ∧ InRange bs c ∧
        fatWord bs d c = 0 ∧ ∀ c', InRange bs c' → c' < c → fatWord bs d c' ≠ 0) ∨
      (exec (findFreeCluster bs) d = (.err .noFreeClusters, d) ∧
        ∀ c', InRange bs c' → fatWord bs d c' ≠ 0) := by
  unfold TableFits at hf
  rcases exec_findFreeFrom bs d bs.sectorsPerFat32.toNat 0 (by omega) with
    ⟨c, he, h2, -, hhi, h0, hnf⟩ | ⟨he, hnf⟩
  · refine .inl ⟨c, he, ⟨h2, by unfold entryCount; omega⟩, h0, fun c' hc' hlt => ?_⟩
    exact hnf c' hc'.1 (by omega) (UInt32.lt_iff_toNat_lt.mp hlt)
  · refine .inr ⟨he, fun c' hc' => hnf c' hc'.1 (by omega) ?_⟩
    have := hc'.2
    unfold entryCount at this
    omega

end RustyOs.FatTable
