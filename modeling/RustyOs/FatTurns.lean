import RustyOs.FatInterleave

/-!
`create_file` keeps the rules for calls in turns.

Every method on the way is shown to obey the discipline for any interference it allows; the
clusters a call owns, the newest first, are then linked to each other and hold the chunks
written so far, whatever the other call does.
-/

namespace RustyOs.FatTurns

open RustyOs.Word32 RustyOs.BlockProg RustyOs.BlockProg.Prog RustyOs.Links RustyOs.Chunks
open RustyOs.Fat32 RustyOs.FatTable RustyOs.FatAlloc RustyOs.FatData RustyOs.FatCreate
open RustyOs.FatFrame RustyOs.FatRoundTrip RustyOs.RelyGuarantee RustyOs.FatInterleave

variable {bs : BootSector} {dir : UInt32} {ds : List UInt32} {hds : ∀ x ∈ ds, InRange bs x}
variable {g : List UInt32} {d d₀ d₁ d' : Disk} {c x v : UInt32} {t : Option Await}

lemma Holding.at (h : Holding bs dir ds none g d) (t : Option Await) :
    Holding bs dir ds t g d :=
  ⟨h.range, h.nodup, h.path, fun _ => h.used rfl⟩

lemma Holding.marking (h : Holding bs dir ds t g d) {t' : Option Await} (ht : marking t' = true) :
    Holding bs dir ds t' g d :=
  ⟨h.range, h.nodup, h.path, fun hf => by rw [ht] at hf; cases hf⟩

lemma obeys_read {α : Type} {Q : List UInt32 → α → Disk → Prop} {s : Await} {lba : UInt32}
    {k : Sector → FatM α} (h : Holding bs dir ds none g d)
    (hk : ∀ d', Undisturbed bs ds g d d' → Obeys (discipline bs dir ds hds) Q (k (d' lba)) g d') :
    Obeys (discipline bs dir ds hds) Q (.read s lba k) g d :=
  ⟨Holding.at h (some s), fun d' hr => ⟨g, OwnStep.quiet s g d', hk d' hr.1⟩⟩

/-! ### Taking a cluster -/

lemma obeys_findFreeFrom (n idx : ℕ) (hn : idx + n ≤ bs.sectorsPerFat32.toNat)
    (hf : TableFits bs) (h : Holding bs dir ds none g d) (hu : Undisturbed bs ds g d₀ d) :
    Obeys (discipline bs dir ds hds) (fun g' c d' => g' = c :: g ∧ InRange bs c ∧
      fatWord bs d' c = 0 ∧ Undisturbed bs ds g d₀ d') (findFreeFrom bs n idx) g d := by
  have hf' : bs.sectorsPerFat32.toNat ≤ 2 ^ 23 := hf
  induction n generalizing idx d with
  | zero => exact h
  | succ n ih =>
    have hidx : idx < 2 ^ 23 := by omega
    rw [findFreeFrom_succ bs n hidx]
    refine ⟨Holding.at h _, fun d' hr => ?_⟩
    have h' := hr.1.holding h
    have hu' := hu.trans hr.1
    rcases hfind : (List.finRange 128).find?
      (stopsAt (d' (UInt32.ofNat (bs.reservedSectors.toNat + idx))) idx) with _ | w
    · refine ⟨g, .quiet _ g d', ?_⟩
      simp only [hfind]
      exact ih (idx + 1) (by omega) h' hu'
    · have hw := List.find?_some hfind
      simp only [stopsAt, decide_eq_true_eq] at hw
      have hlt := w.isLt
      have hc : InRange bs (UInt32.ofNat (128 * idx + w.val)) := by
        unfold InRange entryCount
        rw [toNat_ofNat32 (by omega)]
        omega
      have h0 : fatWord bs d' (UInt32.ofNat (128 * idx + w.val)) = 0 := by
        rw [fatWord_eq_scan hidx]
        exact hw.1
      refine ⟨_, .claim _ g hc h0, ?_⟩
      simp only [hfind]
      exact ⟨rfl, hc, h0, hu'⟩

/-- The entry of `x` has been set to `v`, and nothing else the owner of `g` looks at. -/
structure Marked (bs : BootSector) (g : List UInt32) (x v : UInt32) (d d' : Disk) : Prop where
  words : ∀ y : UInt32, y.toNat < entryCount bs →
    fatWord bs d' y = Function.update (fatWord bs d) x v y
  sectors : ∀ y ∈ g, ∀ i < bs.sectorsPerCluster.toNat, d' (sectorAt bs y i) = d (sectorAt bs y i)

lemma SameTable.words (h : SameTable bs d d') {y : UInt32} (hy : y.toNat < entryCount bs) :
    fatWord bs d' y = fatWord bs d y := fatWord_congr (h y hy)

lemma Marked.relies (hm : Marked bs g x v d d₁) (ht : marking t = true)
    (hr : Relies bs ds t g d₁ d') : Marked bs g x v d d' :=
  ⟨fun y hy => (SameTable.words (hr.2.1 ht) hy).trans (hm.words y hy),
    fun y hy i hi => ((hr.1.own y hy).2 i hi).trans (hm.sectors y hy i hi)⟩

lemma Marked.path (hm : Marked bs g x v d d') (hds : ∀ y ∈ ds, InRange bs y) (hx : x ∉ ds)
    (h : Path (fatNext (fatWord bs d)) dir ds) : Path (fatNext (fatWord bs d')) dir ds := by
  refine h.congr fun y hy => fatNext_congr ?_
  rw [hm.words y (hds y hy).2, Function.update_of_ne]
  rintro rfl
  exact hx hy

lemma obeys_setFatEntry (hv : VolumeFits bs) (hds : ∀ x ∈ ds, InRange bs x)
    (h : Holding bs dir ds (some .entryRead) g d) (hx : x ∈ g) (v : UInt32) :
    Obeys (discipline bs dir ds hds)
      (fun g' _ d' => g' = g ∧ Marked bs g x v d d') (setFatEntry bs x v) g d := by
  have hxr := (h.range x hx).1
  have hfat : ∀ y i, InRange bs y → i < bs.sectorsPerCluster.toNat →
      sectorAt bs y i ≠ fatLba bs x := fun y i hy hi => (fatLba_ne_sectorAt hv hxr.2 hy hi).symm
  rw [setFatEntry_eq hv.tableFits]
  refine ⟨h, fun d₁ h₁ => ⟨g, .quiet _ g d₁, Holding.marking (h₁.1.holding h) rfl, fun d₂ h₂ => ?_⟩⟩
  -- the sector written is the one read, with the entry changed
  rw [← h₂.2.1 rfl x hxr.2]
  have hm₂ : Marked bs g x v d (Function.update d₂ (fatLba bs x)
      (setWord (d₂ (fatLba bs x)) (fatOffset x) v)) := by
    refine ⟨fun y hy => ?_, fun y hy i hi => ?_⟩
    · rw [fatWord_update_fatLba, Function.update_apply, Function.update_apply,
        SameTable.words (h₂.2.1 rfl) hy, SameTable.words (h₁.2.1 rfl) hy]
    · rw [Function.update_of_ne (hfat y i (h.range y hy).1 hi), (h₂.1.own y hy).2 i hi,
        (h₁.1.own y hy).2 i hi]
  refine ⟨g, .mark hds rfl hfat fun y hy hyg => ?_, ?_⟩
  · rw [fatWord_update_fatLba, Function.update_of_ne]
    rintro rfl
    exact hyg hx
  · split_ifs with hn
    · have hpath := hm₂.path hds (h.range x hx).2 h.path
      have hback : ∀ y i, InRange bs y → i < bs.sectorsPerCluster.toNat →
          sectorAt bs y i ≠ backupLba bs x := fun y i hy hi =>
        (backupLba_ne_sectorAt hv hn hxr.2 hy hi).symm
      refine ⟨⟨h.range, h.nodup, hpath, fun hf => by cases hf⟩, fun d₄ h₄ => ?_⟩
      have hw : ∀ y : UInt32, y.toNat < entryCount bs → ∀ b,
          fatWord bs (Function.update d₄ (backupLba bs x) b) y = fatWord bs d₄ y :=
        fun y hy b =>
          fatWord_congr (Function.update_of_ne (backupLba_ne_fatLba hv.tableFits x hy) _ _)
      have hm₄ := hm₂.relies rfl h₄
      refine ⟨g, .mark hds rfl hback fun y hy _ => hw y hy _, rfl, fun y hy => ?_,
        fun y hy i hi => ?_⟩
      · rw [hw y hy]
        exact hm₄.words y hy
      · rw [Function.update_of_ne (hback y i (h.range y hy).1 hi)]
        exact hm₄.sectors y hy i hi
    · exact ⟨rfl, hm₂⟩

/-- Each cluster of the list leads to the one before it, the first to `e`. -/
def Linked (f : UInt32 → UInt32) : UInt32 → List UInt32 → Prop
  | _, [] => True
  | e, x :: xs => f x = e ∧ Linked f x xs

lemma Linked.congr {f f' : UInt32 → UInt32} {e : UInt32} {l : List UInt32} (h : Linked f e l)
    (hf : ∀ x ∈ l, f' x = f x) : Linked f' e l := by
  induction l generalizing e with
  | nil => trivial
  | cons x xs ih =>
    exact ⟨(hf x (by simp)).trans h.1, ih h.2 fun y hy => hf y (by simp [hy])⟩

lemma Linked.path {f : UInt32 → UInt32} {l p : List UInt32} (h : Linked f x l)
    (hl : ∀ y ∈ x :: l, y < endOfChain) (hp : Path (fatNext f) x p) :
    ∃ y, (x :: l).getLast? = some y ∧ Path (fatNext f) y (l.reverse ++ p) := by
  induction l generalizing x p with
  | nil => exact ⟨x, rfl, hp⟩
  | cons y l ih =>
    obtain ⟨hyx, hl'⟩ := h
    have hy : Path (fatNext f) y (y :: p) := by
      refine .cons ?_ hp
      rw [fatNext_of_lt (by rw [hyx]; exact hl x (by simp)), hyx]
    obtain ⟨z, hz, hpath⟩ := ih hl' (fun w hw => hl w (by simp [List.mem_cons.mp hw])) hy
    refine ⟨z, by rw [List.getLast?_cons_cons, hz], ?_⟩
    rwa [List.reverse_cons, List.append_assoc]

/-- What the owner of `g` has after the loop has gone through the chunks `done`, both the newest
first. -/
structure Progress (bs : BootSector) (dir : UInt32) (ds g : List UInt32)
    (done : List (List UInt8)) (d : Disk) : Prop where
  holding : Holding bs dir ds none g d
  linked : Linked (fatWord bs d) endOfChain g
  data : g.map (fun x => d (sectorAt bs x 0)) = done.map (fill 0)

lemma Progress.undisturbed (hv : VolumeFits bs) {done : List (List UInt8)}
    (h : Progress bs dir ds g done d) (hu : Undisturbed bs ds g d d') :
    Progress bs dir ds g done d' := by
  refine ⟨hu.holding h.holding, h.linked.congr fun x hx => (hu.own x hx).1, ?_⟩
  rw [← h.data]
  exact List.map_congr_left fun x hx => (hu.own x hx).2 0 hv.cluster

lemma obeys_link (hv : VolumeFits bs) (h : Holding bs dir ds (some .entryRead) (c :: g) d)
    (hl : Linked (fatWord bs d) endOfChain g) : Obeys (discipline bs dir ds hds)
      (fun g' _ d' => g' = c :: g ∧ Holding bs dir ds (some .entryRead) g' d' ∧
        Linked (fatWord bs d') c g ∧
        ∀ y ∈ g, ∀ i < bs.sectorsPerCluster.toNat, d' (sectorAt bs y i) = d (sectorAt bs y i))
      (g.head?.forM fun prev => setFatEntry bs prev c) (c :: g) d := by
  cases g with
  | nil => exact ⟨rfl, h, trivial, by simp⟩
  | cons p g =>
    have hp : p ∈ c :: p :: g := by simp
    refine (obeys_setFatEntry hv hds h hp c).mono ?_
    rintro _ - d₂ ⟨rfl, hm⟩
    have hpg : p ∉ g := (List.nodup_cons.mp (List.nodup_cons.mp h.nodup).2).1
    have hrange : ∀ y ∈ g, InRange bs y := fun y hy => (h.range y (by simp [hy])).1
    refine ⟨rfl, ⟨h.range, h.nodup, hm.path hds (h.range p hp).2 h.path, fun hf => by cases hf⟩,
      ⟨?_, hl.2.congr fun y hy => ?_⟩, fun y hy => hm.sectors y (by simp [List.mem_cons.mp hy])⟩
    · rw [hm.words p (h.range p hp).1.2, Function.update_self]
    · rw [hm.words y (hrange y hy).2, Function.update_of_ne]
      rintro rfl
      exact hpg hy

/-- A new cluster, linked behind the newest one. -/
structure Grown (bs : BootSector) (dir : UInt32) (ds g : List UInt32) (d : Disk) (c : UInt32)
    (d' : Disk) : Prop where
  holding : Holding bs dir ds none (c :: g) d'
  linked : Linked (fatWord bs d') endOfChain (c :: g)
  sectors : ∀ y ∈ g, ∀ i < bs.sectorsPerCluster.toNat, d' (sectorAt bs y i) = d (sectorAt bs y i)

lemma Linked.used {f : UInt32 → UInt32} {e : UInt32} {l : List UInt32} (h : Linked f e l)
    (he : e ≠ 0) (hl : ∀ y ∈ l, y ≠ 0) : ∀ y ∈ l, f y ≠ 0 := by
  induction l generalizing e with
  | nil => simp
  | cons x xs ih =>
    obtain ⟨hx, hxs⟩ := List.forall_mem_cons.mp hl
    exact List.forall_mem_cons.mpr ⟨h.1 ▸ he, ih h.2 hx hxs⟩

lemma obeys_allocateCluster (hv : VolumeFits bs) (h : Holding bs dir ds none g d)
    (hl : Linked (fatWord bs d) endOfChain g) : Obeys (discipline bs dir ds hds)
      (fun g' c d' => g' = c :: g ∧ Grown bs dir ds g d c d')
      (allocateCluster bs g.head? none) g d := by
  rw [allocateCluster]
  refine (obeys_findFreeFrom _ 0 (by omega) hv.tableFits h (.refl d)).bind ?_
  rintro _ c d₁ ⟨rfl, hc, h0, hu⟩
  have h₁ := hu.holding h
  have hcg : c ∉ g := fun hm => h₁.used rfl c hm h0
  have hcd : c ∉ ds := fun hm => used_of_path h₁.path hds c hm h0
  have hown : Holding bs dir ds (some .entryRead) (c :: g) d₁ :=
    ⟨List.forall_mem_cons.mpr ⟨⟨hc, hcd⟩, h₁.range⟩, List.nodup_cons.mpr ⟨hcg, h₁.nodup⟩, h₁.path,
      fun hf => by cases hf⟩
  refine (obeys_link hv hown (hl.congr fun x hx => (hu.own x hx).1)).bind ?_
  rintro _ - d₂ ⟨rfl, h₂, hl₂, hs₂⟩
  refine (obeys_setFatEntry hv hds h₂ (by simp) endOfChain).bind ?_
  rintro _ - d₃ ⟨rfl, hm⟩
  have hl₃ : Linked (fatWord bs d₃) endOfChain (c :: g) := by
    refine ⟨by rw [hm.words c hc.2, Function.update_self], hl₂.congr fun y hy => ?_⟩
    rw [hm.words y (h₁.range y hy).1.2, Function.update_of_ne]
    rintro rfl
    exact hcg hy
  refine ⟨rfl, ⟨hown.range, hown.nodup, hm.path hds hcd h₂.path, fun _ => ?_⟩, hl₃,
    fun y hy i hi => ?_⟩
  · exact hl₃.used (by decide) fun y hy => (hown.range y hy).1.ne_zero
  · rw [hm.sectors y (by simp [hy]) i hi, hs₂ y hy i hi, (hu.own y hy).2 i hi]

/-! ### The loop over the chunks -/

lemma getLast?_cons_orElse (c : UInt32) (g : List UInt32) :
    (c :: g).getLast? = (g.getLast? <|> some c) := by
  cases g with
  | nil => rfl
  | cons p g => rw [List.getLast?_cons_cons, List.getLast?_cons]; rfl

lemma obeys_writeChunks (hv : VolumeFits bs) (hds : ∀ x ∈ ds, InRange bs x)
    (chunks done : List (List UInt8)) (h : Progress bs dir ds g done d) :
    Obeys (discipline bs dir ds hds)
      (fun g' first d' => Progress bs dir ds g' (chunks.reverse ++ done) d' ∧
        first = g'.getLast?) (writeChunks bs chunks g.head? g.getLast?) g d := by
  induction chunks generalizing g done d with
  | nil => exact ⟨h, rfl⟩
  | cons chunk chunks ih =>
    rw [writeChunks]
    refine (obeys_allocateCluster hv h.holding h.linked).bind ?_
    rintro _ c d₁ ⟨rfl, hg⟩
    obtain ⟨hc, hcd⟩ := hg.holding.range c (by simp)
    rw [clusterToSector_eq hv hc]
    refine ⟨Holding.at hg.holding _, fun d₂ hr => ⟨c :: g, ?_, ?_⟩⟩
    · exact .data hv hds _ (by simp) hc hcd _
    · have hcg := (List.nodup_cons.mp hg.holding.nodup).1
      have h₂ := hr.1.holding hg.holding
      have hw : ∀ y : UInt32, y.toNat < entryCount bs → fatWord bs
          (Function.update d₂ (sectorAt bs c 0) (fill 0 chunk)) y = fatWord bs d₂ y := fun y hy =>
        fatWord_update_sectorAt hv hy hc hv.cluster _
      have hprog : Progress bs dir ds (c :: g) (chunk :: done)
          (Function.update d₂ (sectorAt bs c 0) (fill 0 chunk)) := by
        refine ⟨⟨h₂.range, h₂.nodup, h₂.path.congr fun y hy => fatNext_congr (hw y (hds y hy).2),
          fun _ y hy => ?_⟩, (hg.linked.congr fun y hy => (hr.1.own y hy).1).congr fun y hy =>
            hw y (h₂.range y hy).1.2, ?_⟩
        · rw [hw y (h₂.range y hy).1.2]
          exact h₂.used rfl y hy
        · rw [List.map_cons, List.map_cons, Function.update_self, ← h.data]
          refine congrArg _ (List.map_congr_left fun y hy => ?_)
          rw [Function.update_of_ne, (hr.1.own y (by simp [hy])).2 0 hv.cluster,
            hg.sectors y hy 0 hv.cluster]
          intro he
          have hyc := (sectorAt_inj hv (h.holding.range y hy).1 hc hv.cluster hv.cluster he).1
          exact hcg (hyc ▸ hy)
      rw [List.reverse_cons, List.append_assoc, ← getLast?_cons_orElse]
      exact ih (chunk :: done) hprog

/-! ### The directory -/

/-- The walk over the directory sees the chain, as no call changes its entries. -/
lemma obeys_followFrom (n : ℕ) {acc rest : List UInt32} (hlen : rest.length ≤ n)
    (hsub : rest ⊆ ds) (hp : Path (fatNext (fatWord bs d)) c rest)
    (h : Holding bs dir ds none g d) (hu : Undisturbed bs ds g d₀ d) :
    Obeys (discipline bs dir ds hds)
      (fun g' l d' => g' = g ∧ l = acc ++ rest ∧ Undisturbed bs ds g d₀ d')
      (followFrom bs n c acc) g d := by
  induction n generalizing c acc rest d with
  | zero => cases hp <;> simp at hlen
  | succ n ih =>
    rw [followFrom_succ]
    refine obeys_read h fun d' hu' => ?_
    have hp' := hp.congr fun x hx => fatNext_congr (hu'.dir x (hsub hx))
    change Obeys _ _ (if endOfChain ≤ fatWord bs d' c then _ else
      followFrom bs n (fatWord bs d' c) (acc ++ [c])) g d'
    cases hp' with
    | last hnone =>
      rw [if_pos (fatNext_eq_none.mp hnone)]
      exact ⟨rfl, rfl, hu.trans hu'⟩
    | @cons _ y rest hsome hrest =>
      obtain ⟨rfl, hlt⟩ := fatNext_eq_some.mp hsome
      rw [if_neg (UInt32.not_le.mpr hlt)]
      have hacc : acc ++ c :: rest = acc ++ [c] ++ rest := by simp
      rw [hacc]
      exact ih (by simpa using hlen) (fun x hx => hsub (by simp [hx])) hrest (hu'.holding h)
        (hu.trans hu')

/-- The entry stands in a slot of the directory. -/
def Placed (bs : BootSector) (ds : List UInt32) (entry : Fin 32 → UInt8) (d : Disk) : Prop :=
  ∃ l ∈ chainSectors bs ds, ∃ k, slot (d l) k = entry

lemma not_used_of_freeSlot {s : Sector} {k : Fin 16} (h : freeSlot s = some k) :
    ¬ SlotUsed s k := by
  have hk := List.find?_some h
  simp only [decide_eq_true_eq] at hk
  intro hu
  obtain ⟨h0, h1⟩ := of_decide_eq_true hu
  exact hk.elim h0 h1

lemma undisturbed_putEntry (hv : VolumeFits bs) (hds : ∀ x ∈ ds, InRange bs x)
    (h : Holding bs dir ds t g d) {lba : UInt32} (hl : lba ∈ chainSectors bs ds) {k : Fin 16}
    (hk : ¬ SlotUsed (d lba) k) (entry : Fin 32 → UInt8) :
    Undisturbed bs ds g d (putEntry d lba k entry) := by
  refine ⟨fun x hx => ?_, fun x hx => ?_, sameSlots_putEntry hk⟩
  · obtain ⟨y, hy, j, hj, rfl⟩ := mem_chainSectors.mp hl
    exact fatWord_update_sectorAt hv (hds x hx).2 (hds y hy) hj _
  · exact putEntry_keeps hv hds hl k entry (h.range x hx).1 (h.range x hx).2

lemma obeys_tryOffsets (hv : VolumeFits bs) (hds : ∀ x ∈ ds, InRange bs x) (hc : c ∈ ds)
    {is : List ℕ} (his : ∀ i ∈ is, i < bs.sectorsPerCluster.toNat) (entry : Fin 32 → UInt8)
    (h : Holding bs dir ds none g d) (hu : Undisturbed bs ds g d₀ d) :
    Obeys (discipline bs dir ds hds) (fun g' b d' => g' = g ∧ Undisturbed bs ds g d₀ d' ∧
      (b = true → Placed bs ds entry d')) (tryOffsets entry (sectorAt bs c 0) is) g d := by
  induction is generalizing d with
  | nil => exact ⟨rfl, hu, by simp⟩
  | cons i is ih =>
    obtain ⟨hi, his⟩ := List.forall_mem_cons.mp his
    have hl : sectorAt bs c i ∈ chainSectors bs ds := mem_chainSectors.mpr ⟨c, hc, i, hi, rfl⟩
    rw [tryOffsets, add_sectorAt hv (hds c hc) hi, ofOption_some, ret_bind, readSector, read_bind]
    refine obeys_read h fun d₁ hu₁ => ?_
    have h₁ := hu₁.holding h
    simp only [ret_bind]
    rcases hk : freeSlot (d₁ (sectorAt bs c i)) with _ | k
    · exact ih his h₁ (hu.trans hu₁)
    · refine ⟨Holding.at h₁ _, fun d₂ hr => ?_⟩
      -- the sector written is the one read, as the other call is not about to write an entry
      have hsame := hr.2.2 rfl _ hl
      have hfree : ¬ SlotUsed (d₂ (sectorAt bs c i)) k := by
        rw [hsame]
        exact not_used_of_freeSlot hk
      rw [← hsame]
      refine ⟨g, OwnStep.slot hv hds hl hfree, rfl, (hu.trans hu₁).trans (hr.1.trans
        (undisturbed_putEntry hv hds (hr.1.holding h₁) hl hfree entry)), fun _ => ⟨_, hl, k, ?_⟩⟩
      rw [Function.update_self, slot_putSlot_self]

lemma obeys_tryClusters (hv : VolumeFits bs) (hds : ∀ x ∈ ds, InRange bs x) {cs : List UInt32}
    (hcs : cs ⊆ ds) (entry : Fin 32 → UInt8) (h : Holding bs dir ds none g d)
    (hu : Undisturbed bs ds g d₀ d) :
    Obeys (discipline bs dir ds hds) (fun g' _ d' => g' = g ∧ Undisturbed bs ds g d₀ d' ∧
      Placed bs ds entry d') (tryClusters bs entry cs) g d := by
  induction cs generalizing d with
  | nil => exact h
  | cons c cs ih =>
    have hc : c ∈ ds := hcs (by simp)
    rw [tryClusters, clusterToSector_eq hv (hds c hc), ofOption_some, ret_bind]
    refine (obeys_tryOffsets hv hds hc (fun i hi => List.mem_range.mp hi) entry h (.refl d)).bind ?_
    rintro _ b d₁ ⟨rfl, hu₁, hb⟩
    cases b with
    | true => exact ⟨rfl, hu.trans hu₁, hb rfl⟩
    | false => exact ih (fun x hx => hcs (by simp [hx])) (hu₁.holding h) (hu.trans hu₁)

lemma obeys_writeDirEntry (hv : VolumeFits bs) (hds : ∀ x ∈ ds, InRange bs x)
    (hlen : ds.length ≤ maxIterations) (entry : Fin 32 → UInt8)
    (h : Holding bs dir ds none g d) :
    Obeys (discipline bs dir ds hds) (fun g' _ d' => g' = g ∧ Undisturbed bs ds g d d' ∧
      Placed bs ds entry d') (writeDirEntry bs dir entry) g d := by
  refine (obeys_followFrom maxIterations hlen (List.Subset.refl ds) h.path h (.refl d)).bind ?_
  rintro _ l d₁ ⟨rfl, hl, hu⟩
  rw [hl, List.nil_append]
  exact obeys_tryClusters hv hds (List.Subset.refl ds) entry (hu.holding h) hu

/-! ### The whole method -/

/-- What a call that has returned leaves for good. -/
structure Created (bs : BootSector) (dir : UInt32) (ds : List UInt32) (name data : List UInt8)
    (g : List UInt32) (d : Disk) : Prop where
  progress : Progress bs dir ds g (chunksOf bs data).reverse d
  placed : Placed bs ds (entryFor name data g.getLast?) d

lemma obeys_createFile (hv : VolumeFits bs) (hds : ∀ x ∈ ds, InRange bs x)
    (hd : Path (fatNext (fatWord bs d)) dir ds) (hlen : ds.length ≤ maxIterations)
    (name data : List UInt8) : Obeys (discipline bs dir ds hds)
      (fun g _ d' => Created bs dir ds name data g d') (createFile bs dir name data) [] d := by
  have hstart : Progress bs dir ds [] [] d :=
    ⟨⟨by simp, by simp, hd, by simp⟩, trivial, rfl⟩
  have hpos := hv.cluster
  rw [createFile]
  split_ifs
  · exact hstart.holding
  · rw [chunks?, if_neg (by omega), ofOption_some, ret_bind]
    refine (obeys_writeChunks hv hds (chunksOf bs data) [] hstart).bind ?_
    rintro g first d₁ ⟨hp, rfl⟩
    rw [List.append_nil] at hp
    refine (obeys_writeDirEntry hv hds hlen _ hp.holding).mono ?_
    rintro _ - d₂ ⟨rfl, hu, hplaced⟩
    exact ⟨hp.undisturbed hv hu, hplaced⟩

lemma slotUsed_of_entry {name data : List UInt8} (hname : NameOk name) {s : Sector} {k : Fin 16}
    {first : Option UInt32} (h : slot s k = entryFor name data first) : SlotUsed s k := by
  have hvalid := decode_isValid hname (first.getD 0) (UInt32.ofNat data.length)
  rwa [← entryFor, ← h] at hvalid

lemma lasting_created (hv : VolumeFits bs) (hds : ∀ x ∈ ds, InRange bs x)
    {name data : List UInt8} (hname : NameOk name) :
    Lasting (discipline bs dir ds hds)
      (fun g (_ : Unit) d => Created bs dir ds name data g d) where
  inv := fun h => h.progress.holding
  stable := by
    intro g _ d d' h hr
    obtain ⟨l, hl, k, hk⟩ := h.placed
    refine ⟨h.progress.undisturbed hv hr.1, l, hl, k, ?_⟩
    rw [hr.1.slots l hl k (slotUsed_of_entry hname hk), hk]

lemma Created.stored (hv : VolumeFits bs) (hs : bs.sectorsPerCluster = 1)
    (hds : ∀ x ∈ ds, InRange bs x) (hlen : ds.length ≤ maxIterations) {name data : List UInt8}
    (hname : NameOk name) (hne : data ≠ []) (hsize : data.length ≤ 10000 * 512)
    (h : Created bs dir ds name data g d) : Stored bs d dir name data := by
  obtain ⟨hp, l, hl, k, hk⟩ := h
  have hlens : g.length = (chunksOf bs data).length := by
    have := congrArg List.length hp.data
    simpa using this
  obtain ⟨x, g, rfl⟩ : ∃ x g', g = x :: g' := by
    refine List.exists_cons_of_ne_nil ?_
    rintro rfl
    exact hne (chunksOf_eq_nil.mp (List.length_eq_zero_iff.mp hlens.symm))
  have hrange := fun y hy => (hp.holding.range y hy).1
  have hlast : Path (fatNext (fatWord bs d)) x [x] :=
    .last (by rw [fatNext, hp.linked.1, if_pos (UInt32.le_refl _)])
  obtain ⟨y, hy, hpath⟩ := hp.linked.2.path (fun z hz => hv.lt_endOfChain (hrange z hz)) hlast
  rw [hy] at hk
  rw [← List.reverse_cons] at hpath
  refine stored_of_slot (k := k) hv hp.holding.path hlen hds hl hk hname (by omega) hpath ?_
    (fun z hz => hrange z (List.mem_reverse.mp hz)) (bytesOf_chunks hs ?_)
  · rw [List.length_reverse, hlens]
    exact length_chunksOf hs hsize
  · rw [List.map_reverse, hp.data, List.map_reverse, List.reverse_reverse]

/-- The calls are never both marking a cluster nor both about to write an entry. -/
def Apart (c : Pair Await UInt32 Sector FatError Unit) : Prop :=
  Allowed c.fst.site? c.snd.site?

instance : DecidablePred Apart := fun _ => inferInstanceAs (Decidable (_ ∧ _))

/-- The directory lists two entries with these names, and each leads to its data. -/
def BothStored (bs : BootSector) (d : Disk) (dir : UInt32) (name₁ data₁ name₂ data₂ : List UInt8) :
    Prop :=
  ∃ entries, (exec (listDirectory bs dir) d).1 = .ok entries ∧
    ∃ e₁ ∈ entries, ∃ e₂ ∈ entries, e₁ ≠ e₂ ∧
      (e₁.name = encodedName name₁ ∧ (exec (readFile bs e₁) d).1 = .ok data₁) ∧
      (e₂.name = encodedName name₂ ∧ (exec (readFile bs e₂) d).1 = .ok data₂)

lemma bothStored (d : Disk) {name₁ data₁ name₂ data₂ : List UInt8}
    (hne : encodedName name₁ ≠ encodedName name₂) (h₁ : Stored bs d dir name₁ data₁)
    (h₂ : Stored bs d dir name₂ data₂) : BothStored bs d dir name₁ data₁ name₂ data₂ := by
  obtain ⟨entries, hlist, e₁, he₁, hn₁, -, hr₁⟩ := h₁
  obtain ⟨entries', hlist', e₂, he₂, hn₂, -, hr₂⟩ := h₂
  obtain rfl : entries = entries' := by
    rw [hlist] at hlist'
    exact Res.ok.inj (Prod.mk.inj hlist').1
  refine ⟨entries, congrArg Prod.fst hlist, e₁, he₁, e₂, he₂, ?_, ⟨hn₁, congrArg Prod.fst hr₁⟩,
    hn₂, congrArg Prod.fst hr₂⟩
  rintro rfl
  exact hne (hn₁.symm.trans hn₂)

/-- **Two calls that keep apart both leave their file.** -/
theorem creates_apart_stored (hv : VolumeFits bs) (hs : bs.sectorsPerCluster = 1)
    (hd : (exec (followClusterChain bs dir) d).1 = .ok ds) (hds : ∀ x ∈ ds, InRange bs x)
    {name₁ data₁ name₂ data₂ : List UInt8} (hname₁ : NameOk name₁) (hname₂ : NameOk name₂)
    (hnames : encodedName name₁ ≠ encodedName name₂) (hne₁ : data₁ ≠ []) (hne₂ : data₂ ≠ [])
    (hsize₁ : data₁.length ≤ 10000 * 512) (hsize₂ : data₂.length ≤ 10000 * 512)
    {ws : List Bool} {c' : Pair Await UInt32 Sector FatError Unit}
    (hrun : Pair.run Apart ⟨createFile bs dir name₁ data₁, createFile bs dir name₂ data₂, d⟩ ws =
      some c')
    (hok₁ : c'.fst.result? = some (.ok ())) (hok₂ : c'.snd.result? = some (.ok ())) :
    BothStored bs c'.store dir name₁ data₁ name₂ data₂ := by
  obtain ⟨hdp, hdlen⟩ := (exec_followClusterChain_ok bs).mp hd
  obtain ⟨g₁, g₂, -, h₁, h₂⟩ := Obeys.run (D := discipline bs dir ds hds) (P := Apart)
    (fun _ h => h)
    (lasting_created hv hds hname₁) (lasting_created hv hds hname₂)
    (obeys_createFile hv hds hdp hdlen name₁ data₁)
    (obeys_createFile hv hds hdp hdlen name₂ data₂) (List.disjoint_nil_left []) hrun
  rw [result?_eq_ok hok₁] at h₁
  rw [result?_eq_ok hok₂] at h₂
  exact bothStored c'.store hnames (Created.stored hv hs hds hdlen hname₁ hne₁ hsize₁ h₁)
    (Created.stored hv hs hds hdlen hname₂ hne₂ hsize₂ h₂)

/-- The small disk with cluster 4 free as well. -/
def twoFreeDisk : Disk := setEntry smallVolume smallDisk 4 0

/-- Two calls for files of one byte in the directory of cluster 2. -/
def twoCalls (d : Disk) : Pair Await UInt32 Sector FatError Unit :=
  ⟨createFile smallVolume 2 [0x41] [7], createFile smallVolume 2 [0x42] [9], d⟩

theorem creates_apart_stored_small : ∃ c',
    (twoCalls twoFreeDisk).run Apart [false, false, false, true, true, true, false, true, false,
        true, false, false, true, true] = some c' ∧
      BothStored smallVolume c'.store 2 [0x41] [7] [0x42] [9] := by
  have hres : ((twoCalls twoFreeDisk).run Apart [false, false, false, true, true, true, false,
      true, false, true, false, false, true, true]).map (fun c => (c.fst.result?, c.snd.result?)) =
      some (some (.ok ()), some (.ok ())) := by decide +kernel
  have hdir : (exec (followClusterChain smallVolume 2) twoFreeDisk).1 = .ok [2] := by
    decide +kernel
  obtain ⟨c', hrun, hok⟩ := Option.map_eq_some_iff.mp hres
  obtain ⟨hok₁, hok₂⟩ := Prod.mk.inj hok
  exact ⟨c', hrun, creates_apart_stored smallVolume_fits rfl hdir smallDisk_dir_inRange
    (by unfold NameOk; decide) (by unfold NameOk; decide) (by decide) (by decide) (by decide)
    (by decide) (by decide) hrun hok₁ hok₂⟩

/-- Both calls scan the table before either marks its cluster. They take the same one, both
return, and the first file reads as the second. -/
theorem creates_cross_link : ∃ (bs : BootSector) (d : Disk) (dir : UInt32) (ds : List UInt32)
    (name₁ data₁ name₂ data₂ : List UInt8) (ws : List Bool)
    (c' : Pair Await UInt32 Sector FatError Unit),
    VolumeFits bs ∧ bs.sectorsPerCluster = 1 ∧
      ((exec (followClusterChain bs dir) d).1 = .ok ds ∧ ∀ x ∈ ds, InRange bs x) ∧
      (NameOk name₁ ∧ NameOk name₂ ∧ encodedName name₁ ≠ encodedName name₂) ∧
      (data₁ ≠ [] ∧ data₁.length ≤ 10000 * 512) ∧ (data₂ ≠ [] ∧ data₂.length ≤ 10000 * 512) ∧
      Pair.run (fun _ => True) ⟨createFile bs dir name₁ data₁, createFile bs dir name₂ data₂, d⟩
        ws = some c' ∧
      (c'.fst.result? = some (.ok ()) ∧ c'.snd.result? = some (.ok ())) ∧
      ¬ BothStored bs c'.store dir name₁ data₁ name₂ data₂ := by
  have hres : ((twoCalls smallDisk).run (fun _ => True) ([false, true] ++ List.replicate 6 false ++
      List.replicate 6 true)).map (fun c => ((c.fst.result?, c.snd.result?),
        (match (exec (listDirectory smallVolume 2) c.store).1 with
          | .ok entries => entries.all fun e => e.name ≠ encodedName [0x41] ∨
            (exec (readFile smallVolume e) c.store).1 ≠ .ok [7]
          | _ => true))) =
      some ((some (.ok ()), some (.ok ())), true) := by decide +kernel
  obtain ⟨c', hrun, hc'⟩ := Option.map_eq_some_iff.mp hres
  obtain ⟨hok, hall⟩ := Prod.mk.inj hc'
  refine ⟨smallVolume, smallDisk, 2, [2], [0x41], [7], [0x42], [9], _, c', smallVolume_fits, rfl,
    ⟨smallDisk_dir, smallDisk_dir_inRange⟩, ?_, by decide, by decide, hrun, Prod.mk.inj hok, ?_⟩
  · unfold NameOk
    decide
  · rintro ⟨entries, hlist, e, he, -, -, -, ⟨hname, hread⟩, -⟩
    rw [hlist] at hall
    have := List.all_eq_true.mp hall e he
    simp only [hname, hread, ne_eq, not_true_eq_false, or_self, decide_false,
      Bool.false_eq_true] at this

end RustyOs.FatTurns
