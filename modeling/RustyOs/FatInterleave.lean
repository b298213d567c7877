import RustyOs.FatRoundTrip
import RustyOs.RelyGuarantee

/-!
Two `create_file` calls in turns.

Nothing keeps the calls apart: a second call can scan the table while the first stands
between its scan and the writes that mark its cluster, and it then takes the same cluster.
Below, a call owns the clusters it has taken. As long as the calls are not both marking a
cluster and not both about to write a directory sector, each finds what it owns as it left it.
-/

namespace RustyOs.FatInterleave

open RustyOs.Word32 RustyOs.BlockProg RustyOs.BlockProg.Prog RustyOs.Links RustyOs.Chunks
open RustyOs.Fat32 RustyOs.FatTable RustyOs.FatAlloc RustyOs.FatData RustyOs.FatCreate
open RustyOs.FatFrame RustyOs.FatRoundTrip RustyOs.RelyGuarantee

variable {bs : BootSector} {dir : UInt32} {ds : List UInt32}

/-- Between the scan that found a cluster and the last write that marks it. -/
def marking : Option Await → Bool
  | some .entryRead => true
  | some .entryWrite => true
  | some .backupWrite => true
  | _ => false

/-- The slot holds an entry. -/
def SlotUsed (s : Sector) (k : Fin 16) : Prop := (decodeEntry (slot s k)).isValid = true

def SameTable (bs : BootSector) (d d' : Disk) : Prop :=
  ∀ c : UInt32, c.toNat < entryCount bs → d' (fatLba bs c) = d (fatLba bs c)

def SameDir (bs : BootSector) (ds : List UInt32) (d d' : Disk) : Prop :=
  ∀ l ∈ chainSectors bs ds, d' l = d l

def SameSlots (bs : BootSector) (ds : List UInt32) (d d' : Disk) : Prop :=
  ∀ l ∈ chainSectors bs ds, ∀ k, SlotUsed (d l) k → slot (d' l) k = slot (d l) k

/-- What an owner of the clusters `g` finds as it was, wherever it stands. -/
structure Undisturbed (bs : BootSector) (ds g : List UInt32) (d d' : Disk) : Prop where
  dir : ∀ x ∈ ds, fatWord bs d' x = fatWord bs d x
  own : ∀ x ∈ g, Keeps bs d d' x
  slots : SameSlots bs ds d d'

/-- What a transfer of the owner of `g` does: at most, it takes a free cluster. -/
structure OwnStep (bs : BootSector) (ds : List UInt32) (s : Await) (g : List UInt32) (d : Disk)
    (g' : List UInt32) (d' : Disk) : Prop where
  own : g' = g ∨ d' = d ∧ ∃ c, InRange bs c ∧ fatWord bs d c = 0 ∧ g' = c :: g
  words : ∀ x : UInt32, x.toNat < entryCount bs → x ∉ g → fatWord bs d' x = fatWord bs d x
  sectors : ∀ x, InRange bs x → x ∉ g → x ∉ ds →
    ∀ i < bs.sectorsPerCluster.toNat, d' (sectorAt bs x i) = d (sectorAt bs x i)
  slots : SameSlots bs ds d d'
  table : marking (some s) = false → SameTable bs d d'
  sameDir : s ≠ .slotWrite → SameDir bs ds d d'

/-- What holds of the owner of `g`: outside the marking of a cluster, all it owns is marked. -/
structure Holding (bs : BootSector) (dir : UInt32) (ds : List UInt32) (t : Option Await)
    (g : List UInt32) (d : Disk) : Prop where
  range : ∀ x ∈ g, InRange bs x ∧ x ∉ ds
  nodup : g.Nodup
  path : Path (fatNext (fatWord bs d)) dir ds
  used : marking t = false → ∀ x ∈ g, fatWord bs d x ≠ 0

variable {g h : List UInt32} {d d₁ d₂ d' : Disk} {c x v : UInt32} {t : Option Await}

lemma SlotUsed.of_eq {s s' : Sector} {k : Fin 16} (h : SlotUsed s k) (he : slot s' k = slot s k) :
    SlotUsed s' k := by
  unfold SlotUsed
  rwa [he]

lemma SameSlots.trans (h₁ : SameSlots bs ds d d₁) (h₂ : SameSlots bs ds d₁ d₂) :
    SameSlots bs ds d d₂ := fun l hl k hk =>
  (h₂ l hl k (hk.of_eq (h₁ l hl k hk))).trans (h₁ l hl k hk)

lemma SameDir.slots (h : SameDir bs ds d d') : SameSlots bs ds d d' := fun l hl k _ => by
  rw [h l hl]

namespace Undisturbed

lemma refl (d : Disk) : Undisturbed bs ds g d d :=
  ⟨fun _ _ => rfl, fun _ _ => ⟨rfl, fun _ _ => rfl⟩, fun _ _ _ _ => rfl⟩

lemma trans (h₁ : Undisturbed bs ds g d d₁) (h₂ : Undisturbed bs ds g d₁ d₂) :
    Undisturbed bs ds g d d₂ :=
  ⟨fun x hx => (h₂.dir x hx).trans (h₁.dir x hx), fun x hx => (h₁.own x hx).trans (h₂.own x hx),
    h₁.slots.trans h₂.slots⟩

lemma holding (hu : Undisturbed bs ds g d d') (h : Holding bs dir ds t g d) :
    Holding bs dir ds t g d' := by
  refine ⟨h.range, h.nodup, h.path.congr fun x hx => fatNext_congr (hu.dir x hx), fun ht x hx => ?_⟩
  rw [(hu.own x hx).1]
  exact h.used ht x hx

end Undisturbed

/-- What an owner relies on while it stands at a place. -/
def Relies (bs : BootSector) (ds : List UInt32) (t : Option Await) (g : List UInt32)
    (d d' : Disk) : Prop :=
  Undisturbed bs ds g d d' ∧ (marking t = true → SameTable bs d d') ∧
    (t = some .slotWrite → SameDir bs ds d d')

/-- The two calls are not both marking a cluster and not both about to write an entry. -/
def Allowed (s t : Option Await) : Prop :=
  ¬ (marking s = true ∧ marking t = true) ∧ ¬ (s = some .slotWrite ∧ t = some .slotWrite)

lemma apart_step {s : Await} {t t' : Option Await} {g' : List UInt32}
    (ha : Allowed t' t) (hgh : g.Disjoint h) (hg' : Holding bs dir ds t' g' d')
    (hh : Holding bs dir ds t h d) (hs : OwnStep bs ds s g d g' d') : g'.Disjoint h := by
  rcases hs.own with rfl | ⟨rfl, c, -, h0, rfl⟩
  · exact hgh
  · refine List.disjoint_cons_left.mpr ⟨fun hch => ?_, hgh⟩
    have ht' : marking t' = true := by
      by_contra hm
      exact hg'.used (Bool.eq_false_of_not_eq_true hm) c (by simp) h0
    have ht : marking t = false := Bool.eq_false_of_not_eq_true fun ht => ha.1 ⟨ht', ht⟩
    exact hh.used ht c hch h0

lemma relies_step {s : Await} {g' : List UInt32} (hds : ∀ x ∈ ds, InRange bs x)
    (ha : Allowed (some s) t) (hgh : g.Disjoint h) (hg : Holding bs dir ds (some s) g d)
    (hh : Holding bs dir ds t h d) (hs : OwnStep bs ds s g d g' d') : Relies bs ds t h d d' := by
  refine ⟨⟨fun x hx => ?_, fun x hx => ⟨?_, ?_⟩, hs.slots⟩, fun ht => hs.table ?_, fun ht =>
    hs.sameDir ?_⟩
  · exact hs.words x (hds x hx).2 fun hxg => (hg.range x hxg).2 hx
  · exact hs.words x (hh.range x hx).1.2 fun hxg => hgh hxg hx
  · exact hs.sectors x (hh.range x hx).1 (fun hxg => hgh hxg hx) (hh.range x hx).2
  · exact Bool.eq_false_of_not_eq_true fun hm => ha.1 ⟨hm, ht⟩
  · rintro rfl
    exact ha.2 ⟨rfl, ht⟩

/-- The rules two calls keep that create files in the directory with the clusters `ds`. -/
def discipline (bs : BootSector) (dir : UInt32) (ds : List UInt32)
    (hds : ∀ x ∈ ds, InRange bs x) : Discipline Await UInt32 Sector (List UInt32) where
  inv := Holding bs dir ds
  rely := Relies bs ds
  guar := OwnStep bs ds
  apart := List.Disjoint
  allowed := Allowed
  rely_refl := fun _ _ d => ⟨.refl d, fun _ _ _ => rfl, fun _ _ _ => rfl⟩
  rely_trans := fun h₁ h₂ => ⟨h₁.1.trans h₂.1,
    fun ht c hc => (h₂.2.1 ht c hc).trans (h₁.2.1 ht c hc),
    fun ht l hl => (h₂.2.2 ht l hl).trans (h₁.2.2 ht l hl)⟩
  inv_stable := fun h hr => hr.1.holding h
  apart_symm := fun h => h.symm
  allowed_symm := fun h => ⟨fun h' => h.1 h'.symm, fun h' => h.2 h'.symm⟩
  meets := fun ha ha' hgh hg hg' hh hs =>
    ⟨relies_step hds ha hgh hg hh hs, apart_step ha' hgh hg' hh hs⟩

/-! ### Transfers within the rules -/

lemma OwnStep.quiet (s : Await) (g : List UInt32) (d : Disk) : OwnStep bs ds s g d g d :=
  ⟨.inl rfl, fun _ _ _ => rfl, fun _ _ _ _ _ _ => rfl, fun _ _ _ _ => rfl, fun _ _ _ => rfl,
    fun _ _ _ => rfl⟩

lemma OwnStep.claim (s : Await) (g : List UInt32) (hc : InRange bs c) (h0 : fatWord bs d c = 0) :
    OwnStep bs ds s g d (c :: g) d :=
  ⟨.inr ⟨rfl, c, hc, h0, rfl⟩, fun _ _ _ => rfl, fun _ _ _ _ _ _ => rfl, fun _ _ _ _ => rfl,
    fun _ _ _ => rfl, fun _ _ _ => rfl⟩

lemma OwnStep.mark {s : Await} {lba : UInt32} {b : Sector} (hds : ∀ x ∈ ds, InRange bs x)
    (hs : marking (some s) = true)
    (hout : ∀ x i, InRange bs x → i < bs.sectorsPerCluster.toNat → sectorAt bs x i ≠ lba)
    (hw : ∀ x : UInt32, x.toNat < entryCount bs → x ∉ g →
      fatWord bs (Function.update d lba b) x = fatWord bs d x) :
    OwnStep bs ds s g d g (Function.update d lba b) := by
  have hdir : SameDir bs ds d (Function.update d lba b) := by
    intro l hl
    obtain ⟨y, hy, j, hj, rfl⟩ := mem_chainSectors.mp hl
    exact Function.update_of_ne (hout y j (hds y hy) hj) _ _
  refine ⟨.inl rfl, hw, fun x hx _ _ i hi => Function.update_of_ne (hout x i hx hi) _ _, hdir.slots,
    fun hm => ?_, fun _ => hdir⟩
  rw [hs] at hm
  cases hm

lemma OwnStep.data (hv : VolumeFits bs) (hds : ∀ x ∈ ds, InRange bs x) (s : Await) (hx : x ∈ g)
    (hxr : InRange bs x) (hxd : x ∉ ds) (b : Sector) :
    OwnStep bs ds s g d g (Function.update d (sectorAt bs x 0) b) := by
  have hne : ∀ {y i}, InRange bs y → i < bs.sectorsPerCluster.toNat → y ≠ x →
      sectorAt bs y i ≠ sectorAt bs x 0 := fun hy hi hyx he =>
    hyx (sectorAt_inj hv hy hxr hi hv.cluster he).1
  have hdir : SameDir bs ds d (Function.update d (sectorAt bs x 0) b) := by
    intro l hl
    obtain ⟨y, hy, j, hj, rfl⟩ := mem_chainSectors.mp hl
    exact Function.update_of_ne (hne (hds y hy) hj fun e => hxd (e ▸ hy)) _ _
  refine ⟨.inl rfl, fun y hy _ => fatWord_update_sectorAt hv hy hxr hv.cluster b,
    fun y hy hyg _ i hi => Function.update_of_ne (hne hy hi fun e => hyg (e ▸ hx)) _ _, hdir.slots,
    fun _ y hy => Function.update_of_ne (fatLba_ne_sectorAt hv hy hxr hv.cluster) _ _,
    fun _ => hdir⟩

lemma sameSlots_putEntry {lba : UInt32} {k : Fin 16} {entry : Fin 32 → UInt8}
    (hk : ¬ SlotUsed (d lba) k) : SameSlots bs ds d (putEntry d lba k entry) := by
  intro l _ k' hk'
  by_cases hl : l = lba
  · subst hl
    have hne : k'.val ≠ k.val := fun e => hk (Fin.ext e ▸ hk')
    funext j
    have hd : (k'.val * 32 + j.val) / 32 = k'.val := by omega
    simp only [putEntry, Function.update_self, slot, putSlot, hd, hne, if_false]
  · rw [putEntry, Function.update_of_ne hl]

lemma OwnStep.slot (hv : VolumeFits bs) {lba : UInt32} {k : Fin 16} {entry : Fin 32 → UInt8}
    (hds : ∀ x ∈ ds, InRange bs x) (hl : lba ∈ chainSectors bs ds) (hk : ¬ SlotUsed (d lba) k) :
    OwnStep bs ds .slotWrite g d g (putEntry d lba k entry) := by
  obtain ⟨y, hy, j, hj, rfl⟩ := mem_chainSectors.mp hl
  refine ⟨.inl rfl, fun x hx _ => fatWord_update_sectorAt hv hx (hds y hy) hj _,
    fun x hx _ hxd => (putEntry_keeps hv hds hl k entry hx hxd).2, sameSlots_putEntry hk,
    fun _ x hx => Function.update_of_ne (fatLba_ne_sectorAt hv hx (hds y hy) hj) _ _, fun h => ?_⟩
  exact absurd rfl h

end RustyOs.FatInterleave
