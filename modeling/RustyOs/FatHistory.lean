import RustyOs.FatCrash

/-!
A directory as a store of files, through calls of `create_file` that finish, fail or are cut off.

What the store is for is said by a list: a call that returns success puts its file into the
list, and any other call, also one that was cut off, does not. The disk is related to the list
by what `list_directory` and `read_file` return on it.
-/

namespace RustyOs.FatHistory

open RustyOs.Word32 RustyOs.BlockProg RustyOs.BlockProg.Prog RustyOs.Links RustyOs.Chunks
open RustyOs.CrashLogic RustyOs.Fat32 RustyOs.FatTable RustyOs.FatAlloc RustyOs.FatData
open RustyOs.FatCreate RustyOs.FatFrame RustyOs.FatRoundTrip RustyOs.FatDirectory
open RustyOs.FatCrash RustyOs.Machine

/-- The disk, and the files whose creation has returned success. -/
structure Volume where
  disk : Disk
  files : List Request

inductive Event
  | create (r : Request)
  /-- The call is cut off after `n` transfers. -/
  | cutOff (r : Request) (n : ℕ)

def Event.request : Event → Request
  | .create r => r
  | .cutOff r _ => r

variable (bs : BootSector) (dir : UInt32)

def Volume.next (v : Volume) : Event → Option Volume
  | .create r => some
      { disk := createIn bs dir v.disk r
        files :=
          if (exec (createFile bs dir r.1 r.2) v.disk).1 = .ok () then v.files ++ [r]
          else v.files }
  | .cutOff r n => some
      { disk := cut (createFile bs dir r.1 r.2) n v.disk
        files :=
          if (stop (createFile bs dir r.1 r.2) n v.disk).1 = some (.ok ()) then v.files ++ [r]
          else v.files }

/-- A name that is seen in the listing, and data that fit in a chain that can be followed. -/
def Proper (r : Request) : Prop := NameOk r.1 ∧ r.2.length ≤ 10000 * 512

/-! ### A file on the disk -/

/-- A slot of the directory has the entry of a chain that lies outside the directory and holds
the data. -/
structure Kept (ds : List UInt32) (d : Disk) (r : Request) (p : Place) (c : UInt32)
    (cs : List UInt32) : Prop where
  place : p ∈ dirSlots bs ds
  entry : contents d p = entryFor r.1 r.2 (some c)
  path : Path (fatNext (fatWord bs d)) c cs
  length : cs.length ≤ maxIterations
  inRange : ∀ x ∈ cs, InRange bs x
  apart : ∀ x ∈ cs, x ∉ ds
  data : (bytesOf d (chainSectors bs cs)).take r.2.length = r.2

variable {bs dir} {ds cs : List UInt32} {d d' : Disk} {r : Request} {p : Place} {c : UInt32}

lemma sector_mem_of_place (hp : p ∈ dirSlots bs ds) : p.1 ∈ chainSectors bs ds :=
  (List.mem_product.mp hp).1

lemma contents_of_keeps (hk : ∀ x ∈ ds, Keeps bs d d' x) (hp : p ∈ dirSlots bs ds) :
    contents d' p = contents d p := by
  obtain ⟨x, hx, i, hi, he⟩ := mem_chainSectors.mp (sector_mem_of_place hp)
  rw [contents, contents, ← he, (hk x hx).2 i hi]

lemma Kept.of_keeps (h : Kept bs ds d r p c cs) (hp : contents d' p = contents d p)
    (hk : ∀ x ∈ cs, Keeps bs d d' x) : Kept bs ds d' r p c cs where
  place := h.place
  entry := hp.trans h.entry
  path := path_of_keeps h.path hk
  length := h.length
  inRange := h.inRange
  apart := h.apart
  data := (congrArg (List.take _) (flatMap_of_keeps List.ofFn hk)).trans h.data

lemma Kept.undisturbed (h : Kept bs ds d r p c cs) (hds : ∀ x ∈ ds, Keeps bs d d' x)
    (hu : Undisturbed bs d d') : Kept bs ds d' r p c cs :=
  h.of_keeps (contents_of_keeps hds h.place) fun x hx =>
    hu x (h.inRange x hx) (used_of_path h.path h.inRange x hx)

lemma isLive_entryFor (hname : NameOk r.1) (first : Option UInt32) :
    isLive (entryFor r.1 r.2 first) = true := decode_isValid hname _ _

lemma Kept.putEntry (hv : VolumeFits bs) (hds : ∀ x ∈ ds, InRange bs x) (hname : NameOk r.1)
    (h : Kept bs ds d r p c cs) {q : Place} (hq : q ∈ dirSlots bs ds)
    (hfree : isLive (contents d q) = false) (entry : Fin 32 → UInt8) :
    Kept bs ds (putEntry d q.1 q.2 entry) r p c cs := by
  have hne : p ≠ q := by
    rintro rfl
    rw [h.entry, isLive_entryFor hname] at hfree
    cases hfree
  refine h.of_keeps ?_ fun x hx => ?_
  · rw [contents_putEntry, Function.update_of_ne hne]
  · exact putEntry_keeps hv hds (sector_mem_of_place hq) q.2 entry (h.inRange x hx) (h.apart x hx)

lemma Wrote.kept (hv : VolumeFits bs) (hs : bs.sectorsPerCluster = 1)
    (hd : DirAt bs dir ds d) (hw : Wrote bs none (c :: cs) (chunksOf bs r.2) d d')
    (hlen : (c :: cs).length = (chunksOf bs r.2).length) (hr : Proper r)
    (hp : p ∈ dirSlots bs ds) :
    Kept bs ds (putEntry d' p.1 p.2 (entryFor r.1 r.2 (some c))) r p c (c :: cs) := by
  have hfree := hw.free hv (by simp)
  have hapart : ∀ x ∈ c :: cs, x ∉ ds := fun x hx hxd =>
    used_of_path hd.path hd.inRange x hxd (hfree x hx).2.1
  have hkeep : ∀ x ∈ c :: cs,
      Keeps bs d' (putEntry d' p.1 p.2 (entryFor r.1 r.2 (some c))) x := fun x hx =>
    putEntry_keeps hv hd.inRange (sector_mem_of_place hp) p.2 _ (hfree x hx).1 (hapart x hx)
  refine ⟨hp, ?_, path_of_keeps (hw.path hv) hkeep, ?_, fun x hx => (hfree x hx).1, hapart, ?_⟩
  · rw [contents_putEntry, Function.update_self]
  · exact hlen.le.trans (length_chunksOf hs hr.2)
  · refine (congrArg (List.take _) (flatMap_of_keeps List.ofFn hkeep)).trans ?_
    refine bytesOf_chunks hs ?_
    rw [hw.data hv, hlen, List.take_length]

lemma Kept.stored (hv : VolumeFits bs) (hd : DirAt bs dir ds d) (hr : Proper r)
    (h : Kept bs ds d r p c cs) : Stored bs d dir r.1 r.2 :=
  stored_of_slot hv hd.path hd.length hd.inRange (sector_mem_of_place h.place) h.entry hr.1
    (hr.2.trans_lt (by decide)) h.path h.length h.inRange h.data

/-! ### The disk and the list -/

/-- The disk of the volume represents its list of files, on top of what was there on `d₀`. -/
structure Represents (bs : BootSector) (dir : UInt32) (ds : List UInt32) (d₀ : Disk)
    (v : Volume) : Prop where
  dirAt : DirAt bs dir ds v.disk
  names : ((listed bs ds v.disk).map DirEntry.name).Perm
    ((listed bs ds d₀).map DirEntry.name ++ v.files.map fun r => encodedName r.1)
  proper : ∀ r ∈ v.files, Proper r
  kept : ∀ r ∈ v.files, r.2 ≠ [] → ∃ p c cs, Kept bs ds v.disk r p c cs
  others : ∀ x, InRange bs x → fatWord bs d₀ x ≠ 0 → x ∉ ds → Keeps bs d₀ v.disk x

variable {d₀ : Disk} {v : Volume}

lemma Represents.start (hd : DirAt bs dir ds d₀) : Represents bs dir ds d₀ ⟨d₀, []⟩ where
  dirAt := hd
  names := by simp
  proper := by simp
  kept := by simp
  others := fun _ _ _ _ => ⟨rfl, fun _ _ => rfl⟩

lemma Represents.undisturbed (hv : VolumeFits bs) (h : Represents bs dir ds d₀ v)
    (hu : Undisturbed bs v.disk d') : Represents bs dir ds d₀ ⟨d', v.files⟩ := by
  have hk : ∀ x ∈ ds, Keeps bs v.disk d' x := fun x hx =>
    hu x (h.dirAt.inRange x hx) (used_of_path h.dirAt.path h.dirAt.inRange x hx)
  refine ⟨h.dirAt.of_keeps hk, ?_, h.proper, fun r hr hne => ?_, fun x hx hne hxs => ?_⟩
  · rw [h.dirAt.listed_of_keeps hv hk]
    exact h.names
  · obtain ⟨p, c, cs, hkept⟩ := h.kept r hr hne
    exact ⟨p, c, cs, hkept.undisturbed hk hu⟩
  · have hx₀ := h.others x hx hne hxs
    exact hx₀.trans (hu x hx (hx₀.1 ▸ hne))

lemma Represents.created (hv : VolumeFits bs) (hs : bs.sectorsPerCluster = 1)
    (h : Represents bs dir ds d₀ v) (hr : Proper r)
    (hok : exec (createFile bs dir r.1 r.2) v.disk = (.ok (), d')) :
    Represents bs dir ds d₀ ⟨d', v.files ++ [r]⟩ := by
  have hd' : createIn bs dir v.disk r = d' := by rw [createIn, hok]
  obtain ⟨hdir, hlist⟩ := h.dirAt.create hv r
  rw [hd', hok] at hlist
  rw [hd'] at hdir
  -- the call is the loop over the chunks and one entry in a free slot
  rcases exec_createFile hv dir r.1 r.2 v.disk with
    ⟨-, he⟩ | ⟨-, cs, d₁, hw, -, ⟨he, -, -⟩ | ⟨he, hlen⟩⟩
  · rw [he] at hok
    cases hok
  · rw [he] at hok
    cases hok
  have hu : Undisturbed bs v.disk d₁ := fun x hx hne => Wrote.keeps hv hw hx hne
  have h₁ := h.undisturbed hv hu
  rcases h₁.dirAt.exec_write hv (entryFor r.1 r.2 cs.head?) with ⟨q, hfree, hput, -⟩ | ⟨hput, -⟩
  swap
  · rw [he, hput] at hok
    cases hok
  obtain rfl : putEntry d₁ q.1 q.2 (entryFor r.1 r.2 cs.head?) = d' := by
    rw [he, hput] at hok
    exact (Prod.mk.inj hok).2
  have hq : q ∈ dirSlots bs ds := List.mem_of_find?_eq_some hfree
  have hdead : isLive (contents d₁ q) = false := by simpa using List.find?_some hfree
  refine ⟨hdir, ?_, ?_, fun s hmem hne => ?_, fun x hx hne hxs => ?_⟩
  · rcases hlist with ⟨hno, -⟩ | ⟨-, -, i, hi, e, hename, hlist⟩
    · exact absurd ⟨rfl, hr.1⟩ hno
    · have hnew : (((listed bs ds v.disk).insertIdx i e).map DirEntry.name).Perm
          ((listed bs ds v.disk).map DirEntry.name ++ [encodedName r.1]) := by
        rw [← hename]
        exact ((List.perm_insertIdx e _ hi).map _).trans (List.perm_append_singleton _ _).symm
      rw [hlist, List.map_append, ← List.append_assoc]
      exact hnew.trans (h.names.append_right _)
  · intro s hmem
    rcases List.mem_append.mp hmem with hs' | hs'
    · exact h.proper s hs'
    · exact List.mem_singleton.mp hs' ▸ hr
  · rcases List.mem_append.mp hmem with hs' | hs'
    · obtain ⟨p, c, cs', hkept⟩ := h₁.kept s hs' hne
      exact ⟨p, c, cs', hkept.putEntry hv h.dirAt.inRange (h.proper s hs').1 hq hdead _⟩
    · obtain rfl := List.mem_singleton.mp hs'
      have hcs : cs ≠ [] := by
        rintro rfl
        exact hne (chunksOf_eq_nil.mp (List.length_eq_zero_iff.mp hlen.symm))
      obtain ⟨c, cs, rfl⟩ := List.exists_cons_of_ne_nil hcs
      exact ⟨q, c, c :: cs, Wrote.kept hv hs h.dirAt hw hlen hr hq⟩
  · exact (h₁.others x hx hne hxs).trans
      (putEntry_keeps hv h.dirAt.inRange (sector_mem_of_place hq) q.2 _ hx hxs)

lemma Represents.call (hv : VolumeFits bs) (hs : bs.sectorsPerCluster = 1)
    (h : Represents bs dir ds d₀ v) (hr : Proper r) (n : ℕ) : Represents bs dir ds d₀
      { disk := cut (createFile bs dir r.1 r.2) n v.disk
        files :=
          if (stop (createFile bs dir r.1 r.2) n v.disk).1 = some (.ok ()) then v.files ++ [r]
          else v.files } := by
  by_cases hok : (stop (createFile bs dir r.1 r.2) n v.disk).1 = some (.ok ())
  · rw [if_pos hok]
    exact h.created hv hs hr (exec_of_stop hok)
  · rw [if_neg hok]
    exact h.undisturbed hv ((createFile_cut hv dir r.1 r.2 n v.disk).resolve_left hok)

lemma Represents.next (hv : VolumeFits bs) (hs : bs.sectorsPerCluster = 1) {v' : Volume}
    {e : Event} (h : Represents bs dir ds d₀ v) (hr : Proper e.request)
    (hn : v.next bs dir e = some v') : Represents bs dir ds d₀ v' := by
  cases e with
  | create r =>
    -- a call that comes to its end is one that is cut off late
    obtain ⟨n, hstop⟩ := exists_stop (createFile bs dir r.1 r.2) v.disk
    have hcall := h.call (r := r) hv hs hr n
    rw [cut, hstop] at hcall
    obtain rfl := Option.some.inj hn
    simpa only [Option.some.injEq, createIn] using hcall
  | cutOff r n =>
    obtain rfl := Option.some.inj hn
    exact h.call hv hs hr n

/-- **Files survive.** After any sequence of calls of `create_file` on a directory, finished,
failed or cut off: the directory lists what it listed at the start and the files whose creation
returned success, each once and nothing else; these files can be read back; and what was on the
disk before outside the directory reads as before. -/
theorem files_survive (hv : VolumeFits bs) (hs : bs.sectorsPerCluster = 1)
    (hd : (exec (followClusterChain bs dir) d₀).1 = .ok ds) (hds : ∀ x ∈ ds, InRange bs x)
    (h : Reach (Volume.next bs dir) (fun _ e => Proper e.request) ⟨d₀, []⟩ v) :
    (∃ old entries, (exec (listDirectory bs dir) d₀).1 = .ok old ∧
        (exec (listDirectory bs dir) v.disk).1 = .ok entries ∧
        (entries.map DirEntry.name).Perm
          (old.map DirEntry.name ++ v.files.map fun r => encodedName r.1)) ∧
      (∀ r ∈ v.files, r.2 ≠ [] → Stored bs v.disk dir r.1 r.2) ∧
      ∀ (e : DirEntry) (es : List UInt32),
        (exec (followClusterChain bs e.firstCluster) d₀).1 = .ok es →
        (∀ x ∈ es, InRange bs x ∧ x ∉ ds) →
        (exec (readFile bs e) v.disk).1 = (exec (readFile bs e) d₀).1 := by
  have hstart := DirAt.of_follow hd hds
  have hrep : Represents bs dir ds d₀ v :=
    h.inv (.start hstart) fun v e v' hi hr hn => hi.next hv hs hr hn
  refine ⟨⟨_, _, hstart.exec_list hv, hrep.dirAt.exec_list hv, hrep.names⟩, fun r hr hne => ?_,
    fun e es he hes => ?_⟩
  · obtain ⟨p, c, cs, hkept⟩ := hrep.kept r hr hne
    exact hkept.stored hv hrep.dirAt (hrep.proper r hr)
  · obtain ⟨hep, helen⟩ := (exec_followClusterChain_ok bs).mp he
    have hin : ∀ x ∈ es, InRange bs x := fun x hx => (hes x hx).1
    exact readFile_of_keeps hv hep helen hin fun x hx =>
      hrep.others x (hin x hx) (used_of_path hep hin x hx) (hes x hx).2

/-- On this disk clusters 3 and 4 are free. -/
def twoFreeDisk : Disk := setEntry smallVolume smallDisk 4 0

/-- A call is cut off when it has taken cluster 3, and made again. -/
theorem files_survive_again : ∃ v : Volume,
    fatWord smallVolume (cut (createFile smallVolume 2 [0x41] [7]) 3 twoFreeDisk) 3 = endOfChain ∧
      Reach (Volume.next smallVolume 2) (fun _ e => Proper e.request) ⟨twoFreeDisk, []⟩ v ∧
      v.files = [([0x41], [7])] ∧ Stored smallVolume v.disk 2 [0x41] [7] := by
  have hr : Proper ([0x41], [7]) := ⟨nameOk_of_head (by simp), by simp⟩
  have h : Reach (Volume.next smallVolume 2) (fun _ e => Proper e.request) ⟨twoFreeDisk, []⟩ _ :=
    .start
  have h := Reach.step (e := Event.cutOff ([0x41], [7]) 3) h hr rfl
  have h := Reach.step (e := Event.create ([0x41], [7])) h hr rfl
  have hfiles : (exec (createFile smallVolume 2 [0x41] [7])
      (cut (createFile smallVolume 2 [0x41] [7]) 3 twoFreeDisk)).1 = .ok () := by decide +kernel
  have hcut : (stop (createFile smallVolume 2 [0x41] [7]) 3 twoFreeDisk).1 ≠ some (.ok ()) := by
    decide +kernel
  have hdir : (exec (followClusterChain smallVolume 2) twoFreeDisk).1 = .ok [2] := by
    decide +kernel
  have hstored := (files_survive smallVolume_fits rfl hdir smallDisk_dir_inRange h).2.1
    ([0x41], [7])
  simp only [hfiles, hcut, if_true, if_false, List.nil_append] at h hstored
  exact ⟨_, by decide +kernel, h, rfl, hstored (by simp) (by simp)⟩

end RustyOs.FatHistory
