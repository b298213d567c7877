import RustyOs.FatTable
import RustyOs.Machine

/-!
What `allocate_cluster` does to the chains of the table.

The method takes the least free cluster and sets two entries. Called for a new file, behind
the last cluster of a chain, or between a cluster and its successor, it starts a chain of one
cluster or puts the new cluster into the chain; the table stays well linked through any
number of such calls.
-/

namespace RustyOs.FatAlloc

open RustyOs.Word32 RustyOs.BlockProg RustyOs.BlockProg.Prog RustyOs.Links RustyOs.Fat32
open RustyOs.FatTable RustyOs.Machine

variable {bs : BootSector} {d : Disk} {c x : UInt32}

/-- The disk after `allocate_cluster` has taken cluster `c`. -/
def allocDisk (bs : BootSector) (d : Disk) (prev next : Option UInt32) (c : UInt32) : Disk :=
  setEntry bs (prev.elim d fun p => setEntry bs d p c) c (next.getD endOfChain)

/-- The table after `allocate_cluster` has taken cluster `c`. -/
def allocWord (f : UInt32 → UInt32) (prev next : Option UInt32) (c : UInt32) : UInt32 → UInt32 :=
  Function.update (prev.elim f fun p => Function.update f p c) c (next.getD endOfChain)

lemma exec_allocateCluster (hf : TableFits bs) (d : Disk) (prev next : Option UInt32) :
    (∃ c : UInt32, exec (allocateCluster bs prev next) d = (.ok c, allocDisk bs d prev next c) ∧
        InRange bs c ∧ fatWord bs d c = 0 ∧
        ∀ c', InRange bs c' → c' < c → fatWord bs d c' ≠ 0) ∨
      (exec (allocateCluster bs prev next) d = (.err .noFreeClusters, d) ∧
        ∀ c', InRange bs c' → fatWord bs d c' ≠ 0) := by
  unfold allocateCluster
  rcases exec_findFreeCluster hf d with ⟨c, he, hrange, h0, hleast⟩ | ⟨he, hnone⟩
  · refine .inl ⟨c, ?_, hrange, h0, hleast⟩
    rw [exec_bind_ok he]
    cases prev with
    | none =>
      change exec (setFatEntry bs c (next.getD endOfChain) >>= fun _ => ret c) d = _
      rw [exec_bind_ok (exec_setFatEntry hf _ _ _)]
      rfl
    | some p =>
      change exec (setFatEntry bs p c >>= fun _ =>
        setFatEntry bs c (next.getD endOfChain) >>= fun _ => ret c) d = _
      rw [exec_bind_ok (exec_setFatEntry hf _ _ _), exec_bind_ok (exec_setFatEntry hf _ _ _)]
      rfl
  · exact .inr ⟨exec_bind_err he _, hnone⟩

lemma fatWord_allocDisk (hf : TableFits bs) {prev next : Option UInt32}
    (hx : x.toNat < entryCount bs) :
    fatWord bs (allocDisk bs d prev next c) x = allocWord (fatWord bs d) prev next c x := by
  unfold allocDisk allocWord
  cases prev with
  | none => exact fatWord_setEntry hf hx
  | some p =>
    simp only [Option.elim_some]
    by_cases h : x = c
    · subst h
      rw [fatWord_setEntry hf hx, Function.update_self, Function.update_self]
    · rw [fatWord_setEntry hf hx, Function.update_of_ne h, Function.update_of_ne h,
        fatWord_setEntry hf hx]

lemma allocDisk_of_outside (hf : TableFits bs) (hn : 1 ≤ bs.numFats.toNat)
    {prev next : Option UInt32} (hc : InRange bs c) (hp : ∀ p ∈ prev, InRange bs p) {lba : UInt32}
    (h : lba.toNat < bs.reservedSectors.toNat ∨
      bs.reservedSectors.toNat + tableSectors bs ≤ lba.toNat) :
    allocDisk bs d prev next c lba = d lba := by
  unfold allocDisk
  rw [setEntry_of_outside hf hc.2 hn h]
  cases prev with
  | none => rfl
  | some p => exact setEntry_of_outside hf (hp p rfl).2 hn h

/-! ### Chains of the table -/

/-- A cluster in range with a non-zero entry. -/
def Used (bs : BootSector) (f : UInt32 → UInt32) (c : UInt32) : Prop := InRange bs c ∧ f c ≠ 0

/-- Every non-zero entry marks an end or leads to a cluster in range with a non-zero entry, no
two clusters have the same successor, and there is no cycle. -/
def WellFormed (bs : BootSector) (d : Disk) : Prop :=
  WellLinked (Used bs (fatWord bs d)) (fatNext (fatWord bs d))

/-- The clusters of a whole chain of the table, first to last. -/
def ChainOf (bs : BootSector) (d : Disk) (l : List UInt32) : Prop :=
  IsChain (Used bs (fatWord bs d)) (fatNext (fatWord bs d)) l

/-- The calls of `allocate_cluster` that build chains. -/
inductive Call
  | fresh
  | append (p : UInt32)
  | splice (p n : UInt32)

namespace Call

def prev : Call → Option UInt32
  | fresh => none
  | append p => some p
  | splice p _ => some p

def next : Call → Option UInt32
  | fresh => none
  | append _ => none
  | splice _ n => some n

def run (bs : BootSector) (call : Call) : FatM UInt32 := allocateCluster bs call.prev call.next

/-- The cluster to append to ends its chain; the one to splice behind leads to the next. -/
def Valid (bs : BootSector) (d : Disk) : Call → Prop
  | fresh => True
  | append p => Used bs (fatWord bs d) p ∧ fatNext (fatWord bs d) p = none
  | splice p n => Used bs (fatWord bs d) p ∧ fatNext (fatWord bs d) p = some n

/-- The chains afterwards, when cluster `c` has been taken. -/
def Chains (bs : BootSector) (d : Disk) (c : UInt32) : Call → List UInt32 → Prop
  | fresh, l => ChainOf bs d l ∨ l = [c]
  | append p, l => ∃ l₀, ChainOf bs d l₀ ∧ l = if p ∈ l₀ then insertAfter p c l₀ else l₀
  | splice p _, l => ∃ l₀, ChainOf bs d l₀ ∧ l = if p ∈ l₀ then insertAfter p c l₀ else l₀

end Call

lemma insertAfter_eq_ite (p c : UInt32) (l : List UInt32) :
    insertAfter p c l = if p ∈ l then insertAfter p c l else l := by
  split_ifs with h
  · rfl
  · exact insertAfter_of_notMem h

/-- The disk after a call. -/
def after (bs : BootSector) (d : Disk) (call : Call) : Option Disk :=
  some (exec (call.run bs) d).2

lemma fatNext_of_lt {f : UInt32 → UInt32} (h : f x < endOfChain) : fatNext f x = some (f x) :=
  fatNext_eq_some.mpr ⟨rfl, h⟩

lemma fatNext_congr {f g : UInt32 → UInt32} (h : f x = g x) : fatNext f x = fatNext g x := by
  rw [fatNext, fatNext, h]

/-- The links after taking `c` behind `p`, whether `p` ended its chain or not: a number that
reads as an end mark cuts the chain behind `p`, any other puts `c` into it. -/
lemma fatNext_alloc_behind {call : Call} {p : UInt32} (hv : call.Valid bs d)
    (hprev : call.prev = some p) (hne : p ≠ c) :
    fatNext (allocWord (fatWord bs d) call.prev call.next c) =
      if c < endOfChain then spliceNext (fatNext (fatWord bs d)) p c
      else cutNext (fatNext (fatWord bs d)) p c := by
  have hnew : fatNext (allocWord (fatWord bs d) call.prev call.next c) c =
      fatNext (fatWord bs d) p := by
    cases call with
    | fresh => cases hprev
    | append q =>
      cases hprev
      rw [hv.2]
      simp [fatNext, allocWord, Call.next]
    | splice q n =>
      cases hprev
      have hlt : ¬ endOfChain ≤ n := by
        obtain ⟨hn, hlt⟩ := fatNext_eq_some.mp hv.2
        exact hn ▸ UInt32.not_le.mpr hlt
      rw [hv.2]
      simp [fatNext, allocWord, Call.next, hlt]
  have hword : allocWord (fatWord bs d) call.prev call.next c p = c := by
    simp [allocWord, hprev, hne]
  have hother : ∀ x, x ≠ c → x ≠ p →
      allocWord (fatWord bs d) call.prev call.next c x = fatWord bs d x := by
    intro x hxc hxp
    simp [allocWord, hprev, hxc, hxp]
  funext x
  split_ifs with hlt
  · by_cases hxc : x = c
    · rw [hxc, spliceNext_new, hnew]
    · by_cases hxp : x = p
      · rw [hxp, spliceNext_prev hne, fatNext_of_lt (by rwa [hword]), hword]
      · rw [spliceNext_other hxp hxc]
        exact fatNext_congr (hother x hxc hxp)
  · by_cases hxc : x = c
    · rw [hxc, cutNext, Function.update_self, hnew]
    · rw [cutNext, Function.update_of_ne hxc]
      by_cases hxp : x = p
      · rw [hxp, Function.update_self, fatNext, hword, if_pos (UInt32.not_lt.mp hlt)]
      · rw [Function.update_of_ne hxp]
        exact fatNext_congr (hother x hxc hxp)

lemma fatNext_alloc_fresh (f : UInt32 → UInt32) (c : UInt32) :
    fatNext (allocWord f none none c) = Function.update (fatNext f) c none := by
  funext x
  by_cases hxc : x = c
  · subst hxc
    simp [fatNext, allocWord]
  · rw [Function.update_of_ne hxc]
    exact fatNext_congr (by simp [allocWord, hxc])

lemma Call.next_ne_zero (hw : WellFormed bs d) {call : Call} (hv : call.Valid bs d) :
    call.next.getD endOfChain ≠ 0 := by
  cases call with
  | fresh => exact (by decide : endOfChain ≠ 0)
  | append p => exact (by decide : endOfChain ≠ 0)
  | splice p n => exact (hw.closed _ _ hv.1 hv.2).1.ne_zero

lemma Call.used_prev {call : Call} (hv : call.Valid bs d) :
    ∀ p ∈ call.prev, Used bs (fatWord bs d) p := by
  intro p hp
  cases call with
  | fresh => cases hp
  | append q => cases hp; exact hv.1
  | splice q n => cases hp; exact hv.1

lemma used_alloc (hf : TableFits bs) (hw : WellFormed bs d) {call : Call}
    (hv : call.Valid bs d) (hc : InRange bs c) :
    Used bs (fatWord bs (allocDisk bs d call.prev call.next c)) =
      fun x => Used bs (fatWord bs d) x ∨ x = c := by
  funext x
  apply propext
  by_cases hx : InRange bs x
  · unfold Used
    rw [fatWord_allocDisk hf hx.2, allocWord]
    by_cases hxc : x = c
    · subst hxc
      simpa [hx] using call.next_ne_zero hw hv
    · rw [Function.update_of_ne hxc]
      simp only [hx, true_and, hxc, or_false]
      cases hp : call.prev with
      | none => rfl
      | some p =>
        by_cases hxp : x = p
        · subst hxp
          simp [hc.ne_zero, (call.used_prev hv x hp).2]
        · simp [hxp]
  · have hxc : x ≠ c := fun e => hx (e ▸ hc)
    simp [Used, hx, hxc]

/-- One call, when it takes cluster `c`: the table stays well formed, and, unless the number
of `c` reads as an end mark, its chains are the old ones with `c` in its place. -/
lemma alloc_chains (hf : TableFits bs) (hw : WellFormed bs d) {call : Call}
    (hv : call.Valid bs d) (hc : InRange bs c) (h0 : fatWord bs d c = 0) :
    WellFormed bs (allocDisk bs d call.prev call.next c) ∧
      (call.prev = none ∨ c < endOfChain →
        ∀ l, ChainOf bs (allocDisk bs d call.prev call.next c) l ↔ call.Chains bs d c l) := by
  have hunused : ¬ Used bs (fatWord bs d) c := fun h => h.2 h0
  have hused := used_alloc hf hw hv hc
  -- on clusters in use the links are those of the updated table
  have hnext : ∀ x, (Used bs (fatWord bs d) x ∨ x = c) →
      fatNext (fatWord bs (allocDisk bs d call.prev call.next c)) x =
        fatNext (allocWord (fatWord bs d) call.prev call.next c) x := by
    intro x hx
    have hr : InRange bs x := hx.elim (fun h => h.1) (fun e => e ▸ hc)
    exact fatNext_congr (fatWord_allocDisk hf hr.2)
  unfold WellFormed ChainOf
  rw [hused]
  rcases hprev : call.prev with _ | p
  · have hfresh : call = .fresh := by cases call <;> simp_all [Call.prev]
    subst hfresh
    rw [Call.prev, Call.next, fatNext_alloc_fresh] at hnext
    refine ⟨hw.fresh.congr hnext, fun _ l => ?_⟩
    exact (isChain_congr hw.fresh hnext).trans (isChain_fresh hw hunused)
  · have hp := call.used_prev hv p hprev
    have hne : p ≠ c := by
      rintro rfl
      exact hunused hp
    rw [fatNext_alloc_behind hv hprev hne, hprev] at hnext
    by_cases hlt : c < endOfChain
    · rw [if_pos hlt] at hnext
      have hw' := hw.splice hp hunused
      refine ⟨hw'.congr hnext, fun _ l => ?_⟩
      rw [isChain_congr hw' hnext, isChain_splice hw hp hunused]
      have hite : ∀ l₀,
          (l = insertAfter p c l₀) = (l = if p ∈ l₀ then insertAfter p c l₀ else l₀) :=
        fun l₀ => by rw [← insertAfter_eq_ite]
      simp only [hite]
      cases call with
      | fresh => cases hprev
      | append q => cases hprev; rfl
      | splice q n => cases hprev; rfl
    · rw [if_neg hlt] at hnext
      exact ⟨(hw.cut hp hunused).congr hnext, fun h => by simp [hlt] at h⟩

/-- What one call does, by what it returns. -/
def Call.Spec (bs : BootSector) (d : Disk) (call : Call) : Res FatError UInt32 × Disk → Prop
  | (.ok c, d') => WellFormed bs d' ∧ InRange bs c ∧ fatWord bs d c = 0 ∧
      (call.prev = none ∨ c < endOfChain → ∀ l, ChainOf bs d' l ↔ call.Chains bs d c l)
  | (.err _, d') => d' = d
  | (.panic, _) => False

lemma call_spec (hf : TableFits bs) (hw : WellFormed bs d) {call : Call}
    (hv : call.Valid bs d) : call.Spec bs d (exec (call.run bs) d) := by
  rcases exec_allocateCluster hf d call.prev call.next with ⟨c, he, hc, h0, -⟩ | ⟨he, -⟩
  · rw [Call.run, he]
    obtain ⟨hw', hchains⟩ := alloc_chains hf hw hv hc h0
    exact ⟨hw', hc, h0, hchains⟩
  · rw [Call.run, he]
    rfl

lemma Call.Spec.wellFormed {call : Call} {r : Res FatError UInt32 × Disk} (hw : WellFormed bs d)
    (h : call.Spec bs d r) : WellFormed bs r.2 := by
  obtain ⟨r, d'⟩ := r
  cases r with
  | ok c => exact h.1
  | err e => exact (show d' = d from h) ▸ hw
  | panic => exact h.elim

lemma wellFormed_of_reach (hf : TableFits bs) {d₀ : Disk} (h₀ : WellFormed bs d₀)
    (h : Reach (after bs) (fun d call => call.Valid bs d) d₀ d) : WellFormed bs d := by
  refine h.inv h₀ fun d call d' hw hv hd => ?_
  obtain rfl := Option.some.inj hd
  exact (call_spec hf hw hv).wellFormed hw

lemma finite_clusters : Finite UInt32 :=
  Finite.of_injective UInt32.toFin fun _ _ h => UInt32.toFin_inj.mp h

/-! ### Tables with one free cluster -/

/-- A sector of end marks. -/
def endMarks : Sector := fun i => leByte endOfChain (i.val % 4)

lemma getWord_endMarks (c : UInt32) :
    getWord endMarks (fatOffset c) (fatOffset_lt c) = endOfChain := by
  have h : ∀ k < 4, (fatOffset c + k) % 4 = k := by
    intro k hk; unfold fatOffset; omega
  have h0 : fatOffset c % 4 = 0 := h 0 (by omega)
  simp only [getWord, endMarks, h0, h 1 (by omega), h 2 (by omega), h 3 (by omega)]
  exact fromLeBytes_leByte endOfChain

/-- On this disk every cluster is a chain of its own, but for `c`, which is free. -/
def oneFree (bs : BootSector) (c : UInt32) : Disk := setEntry bs (fun _ => endMarks) c 0

lemma fatWord_oneFree (hf : TableFits bs) (hx : InRange bs x) :
    fatWord bs (oneFree bs c) x = if x = c then 0 else endOfChain := by
  rw [oneFree, fatWord_setEntry hf hx.2, Function.update_apply]
  split_ifs
  · rfl
  · exact getWord_endMarks x

lemma used_oneFree (hf : TableFits bs) (hx : InRange bs x) (hne : x ≠ c) :
    Used bs (fatWord bs (oneFree bs c)) x := by
  refine ⟨hx, ?_⟩
  rw [fatWord_oneFree hf hx, if_neg hne]
  decide

lemma fatNext_oneFree (hf : TableFits bs) (h : Used bs (fatWord bs (oneFree bs c)) x) :
    fatNext (fatWord bs (oneFree bs c)) x = none := by
  have hw := fatWord_oneFree (c := c) hf h.1
  have hne : x ≠ c := fun e => h.2 (by rw [hw, if_pos e])
  rw [fatNext, hw, if_neg hne, if_pos (UInt32.le_refl _)]

lemma wellFormed_oneFree (hf : TableFits bs) (c : UInt32) : WellFormed bs (oneFree bs c) := by
  refine ⟨fun a b ha hab => ?_, fun a b x ha _ hax => ?_, fun a hcyc => ?_⟩
  · rw [fatNext_oneFree hf ha] at hab; cases hab
  · rw [fatNext_oneFree hf ha] at hax; cases hax
  · obtain ⟨b, ⟨ha, hab⟩, -⟩ := Relation.TransGen.head'_iff.mp hcyc
    rw [fatNext_oneFree hf ha] at hab; cases hab

lemma chainOf_oneFree (hf : TableFits bs) (h : Used bs (fatWord bs (oneFree bs c)) x) :
    ChainOf bs (oneFree bs c) [x] :=
  ⟨x, h, .last (fatNext_oneFree hf h), fun a ha hab => by
    rw [fatNext_oneFree hf ha] at hab; cases hab⟩

/-- A volume with one FAT sector. -/
def smallVolume : BootSector := ⟨512, 1, 1, 1, 0, 1, 2⟩

/-- **Allocation keeps the chain structure.** From a well-formed table, after any number of
calls for a new chain, behind the end of one, or between a cluster and its successor, the
table is well formed, so that every cluster in use lies on a chain. The next such call either
changes nothing on the disk or takes a free cluster; unless the number of that cluster reads
as an end mark, it is put where it was asked for, all other chains staying as they are. -/
theorem allocate_keeps_chains (hs : bs.sectorsPerFat32.toNat ≤ 2 ^ 21) {d₀ : Disk}
    (h₀ : WellFormed bs d₀) (hr : Reach (after bs) (fun d call => call.Valid bs d) d₀ d)
    (call : Call) (hv : call.Valid bs d) :
    WellFormed bs d ∧ (∀ x, Used bs (fatWord bs d) x → ∃ l, ChainOf bs d l ∧ x ∈ l) ∧
      call.Spec bs d (exec (call.run bs) d) := by
  have hf : TableFits bs := by unfold TableFits; omega
  have hw := wellFormed_of_reach hf h₀ hr
  have := finite_clusters
  exact ⟨hw, fun x hx => hw.exists_chain hx, call_spec hf hw hv⟩

theorem allocate_keeps_chains_small :
    WellFormed smallVolume (oneFree smallVolume 3) ∧
      (Call.append 2).Valid smallVolume (oneFree smallVolume 3) ∧
      (Call.append 2).Spec smallVolume (oneFree smallVolume 3)
        (exec ((Call.append 2).run smallVolume) (oneFree smallVolume 3)) := by
  have hf : TableFits smallVolume := by unfold TableFits; decide
  have hw := wellFormed_oneFree hf 3
  have h2 : Used smallVolume (fatWord smallVolume (oneFree smallVolume 3)) 2 :=
    used_oneFree hf (by unfold InRange entryCount; decide) (by decide)
  have hv : (Call.append 2).Valid smallVolume (oneFree smallVolume 3) :=
    ⟨h2, fatNext_oneFree hf h2⟩
  exact ⟨hw, hv, (allocate_keeps_chains (by decide) hw .start (.append 2) hv).2.2⟩

/-- A volume whose table has an entry for every number of 28 bits. -/
def topVolume : BootSector := ⟨512, 1, 1, 1, 0, 2 ^ 21, 2⟩

/-- With an entry for every number of 28 bits, the appended cluster can carry the number of
the end mark: the link to it reads as the end, and the chain does not grow. -/
theorem append_loses_end_mark : ∃ (bs : BootSector) (d d' : Disk) (c : UInt32),
    1 ≤ bs.numFats.toNat ∧ bs.sectorsPerFat32.toNat ≤ 2 ^ 21 ∧ WellFormed bs d ∧
      (Call.append 2).Valid bs d ∧ exec ((Call.append 2).run bs) d = (.ok c, d') ∧
      ChainOf bs d [2] ∧ ¬ ChainOf bs d' (insertAfter 2 c [2]) := by
  have hf : TableFits topVolume := by unfold TableFits; decide
  have hmark : InRange topVolume endOfChain := by unfold InRange entryCount; decide
  have h2 : Used topVolume (fatWord topVolume (oneFree topVolume endOfChain)) 2 :=
    used_oneFree hf (by unfold InRange entryCount; decide) (by decide)
  rcases exec_allocateCluster hf (oneFree topVolume endOfChain) (some 2) none with
    ⟨c, he, hc, h0, -⟩ | ⟨-, h⟩
  · have hce : c = endOfChain := by
      by_contra hne
      rw [fatWord_oneFree hf hc, if_neg hne] at h0
      exact absurd h0 (by decide)
    subst hce
    refine ⟨topVolume, oneFree topVolume endOfChain, _, endOfChain, by decide, by decide,
      wellFormed_oneFree hf _, ⟨h2, fatNext_oneFree hf h2⟩, he, chainOf_oneFree hf h2, ?_⟩
    rintro ⟨h, -, hl, -⟩
    -- the chain would go from cluster 2 to the new one, but the link reads as the end
    have hword : fatWord topVolume (allocDisk topVolume (oneFree topVolume endOfChain) (some 2) none
        endOfChain) 2 = endOfChain := by
      rw [fatWord_allocDisk hf h2.1.2, allocWord]
      rfl
    have hins : insertAfter 2 endOfChain [2] = [2, endOfChain] := rfl
    rw [hins] at hl
    cases hl with
    | cons hn _ =>
      rw [fatNext, hword, if_pos (UInt32.le_refl _)] at hn
      cases hn
  · exact absurd (by rw [fatWord_oneFree hf hmark, if_pos rfl]) (h endOfChain hmark)

end RustyOs.FatAlloc
