import Mathlib

/-!
Layouts of allocations (`core::alloc::Layout`) and the rounding of addresses (`align_up` of
`src/allocator.rs`), on a machine with addresses of 64 bits. An operation that overflows, or
whose `expect` fails, gives nothing.
-/

namespace RustyOs.Allocator

def heapStart : ℕ := 0x444444440000
def heapSize : ℕ := 100 * 1024

/-- `usize` addition, where it does not overflow. -/
def checkedAdd (a b : ℕ) : Option ℕ := if a + b < 2 ^ 64 then some (a + b) else none

lemma checkedAdd_eq_some {a b c : ℕ} : checkedAdd a b = some c ↔ a + b < 2 ^ 64 ∧ a + b = c := by
  rw [checkedAdd, Option.ite_none_right_eq_some, Option.some_inj]

/-- `align_up`; there is no remainder by zero. -/
def alignUp (addr align : ℕ) : Option ℕ :=
  if align = 0 then none
  else
    let remainder := addr % align
    if remainder = 0 then some addr else checkedAdd (addr - remainder) align

lemma alignUp_spec {addr align a : ℕ} (h : alignUp addr align = some a) :
    addr ≤ a ∧ align ∣ a := by
  simp only [alignUp] at h
  split_ifs at h with h0 hr
  · obtain rfl := Option.some_inj.mp h
    exact ⟨le_refl _, Nat.dvd_of_mod_eq_zero hr⟩
  · obtain ⟨-, rfl⟩ := checkedAdd_eq_some.mp h
    have hlt := Nat.mod_lt addr (Nat.pos_of_ne_zero h0)
    have hdiv : addr - addr % align = align * (addr / align) := by
      have := Nat.div_add_mod addr align
      omega
    refine ⟨by omega, ?_⟩
    rw [hdiv]
    exact dvd_add (dvd_mul_right _ _) (dvd_refl _)

lemma alignUp_le {addr align a b : ℕ} (h : alignUp addr align = some a) (hb : align ∣ b)
    (hle : addr ≤ b) : a ≤ b := by
  simp only [alignUp] at h
  split_ifs at h with h0 hr
  · obtain rfl := Option.some_inj.mp h
    exact hle
  · obtain ⟨-, rfl⟩ := checkedAdd_eq_some.mp h
    obtain ⟨q, rfl⟩ := hb
    have hdiv := Nat.div_add_mod addr align
    have hpos : 0 < addr % align := Nat.pos_of_ne_zero hr
    have hlt : addr / align < q := by
      by_contra hge
      have := Nat.mul_le_mul_left align (not_lt.mp hge)
      omega
    calc addr - addr % align + align = align * (addr / align + 1) := by
          rw [Nat.mul_succ]
          omega
      _ ≤ align * q := Nat.mul_le_mul_left align hlt

lemma alignUp_of_dvd {addr align : ℕ} (hpos : 0 < align) (h : align ∣ addr) :
    alignUp addr align = some addr := by
  rw [alignUp, if_neg hpos.ne']
  exact if_pos (Nat.mod_eq_zero_of_dvd h)

lemma exists_alignUp {addr align : ℕ} (hpos : 0 < align) (ha : addr < 2 ^ 63)
    (hl : align ≤ 2 ^ 63) : ∃ a, alignUp addr align = some a := by
  simp only [alignUp, hpos.ne', if_false]
  split_ifs with hr
  · exact ⟨addr, rfl⟩
  · exact ⟨_, checkedAdd_eq_some.mpr ⟨by omega, rfl⟩⟩

lemma pow_dvd_of_le {a b : ℕ} (ha : ∃ k, a = 2 ^ k) (hb : ∃ k, b = 2 ^ k) (h : a ≤ b) : a ∣ b := by
  obtain ⟨j, rfl⟩ := ha
  obtain ⟨k, rfl⟩ := hb
  exact Nat.pow_dvd_pow 2 ((Nat.pow_le_pow_iff_right (by decide)).mp h)

lemma pow_max {a b : ℕ} (ha : ∃ k, a = 2 ^ k) (hb : ∃ k, b = 2 ^ k) : ∃ k, max a b = 2 ^ k := by
  rcases max_choice a b with e | e <;> rw [e]
  exacts [ha, hb]

/-- A layout that exists: the alignment is a power of two, and the size rounded up to it is at
most `isize::MAX`. -/
structure Layout where
  size : ℕ
  align : ℕ
  pow : ∃ k, align = 2 ^ k
  fits : size + align ≤ 2 ^ 63
  deriving DecidableEq

namespace Layout

variable (l : Layout)

lemma align_pos : 0 < l.align := by
  obtain ⟨k, hk⟩ := l.pow
  rw [hk]
  exact Nat.two_pow_pos k

lemma align_le : l.align ≤ 2 ^ 63 := (Nat.le_add_left _ _).trans l.fits

/-- `Layout::align_to`; the alignment asked for is a power of two. -/
def alignTo (m : ℕ) (hm : ∃ k, m = 2 ^ k) : Option Layout :=
  if h : l.size + max l.align m ≤ 2 ^ 63 then
    some ⟨l.size, max l.align m, pow_max l.pow hm, h⟩
  else none

lemma alignTo_eq_some {m : ℕ} {hm : ∃ k, m = 2 ^ k} {l l' : Layout}
    (h : l.alignTo m hm = some l') : l'.size = l.size ∧ l'.align = max l.align m := by
  unfold alignTo at h
  split_ifs at h
  obtain rfl := Option.some_inj.mp h
  exact ⟨rfl, rfl⟩

/-- `Layout::pad_to_align`. -/
def padToAlign : Layout where
  size := (l.size + l.align - 1) / l.align * l.align
  align := l.align
  pow := l.pow
  fits := by
    -- the limit is a multiple of the alignment, so rounding up stays below it
    obtain ⟨q, hq⟩ := pow_dvd_of_le l.pow ⟨63, rfl⟩ l.align_le
    have hpos := l.align_pos
    have hfits := l.fits
    have hdiv : (l.size + l.align - 1) / l.align < q := by
      rw [Nat.div_lt_iff_lt_mul hpos, Nat.mul_comm, ← hq]
      omega
    calc (l.size + l.align - 1) / l.align * l.align + l.align
        = ((l.size + l.align - 1) / l.align + 1) * l.align := (Nat.succ_mul _ _).symm
      _ ≤ q * l.align := Nat.mul_le_mul_right _ hdiv
      _ = 2 ^ 63 := by rw [Nat.mul_comm, hq]

lemma padToAlign_size : l.align ∣ l.padToAlign.size ∧ l.size ≤ l.padToAlign.size := by
  refine ⟨dvd_mul_left _ _, ?_⟩
  have hpos := l.align_pos
  have hmod := Nat.mod_lt (l.size + l.align - 1) hpos
  have hdiv := Nat.div_add_mod (l.size + l.align - 1) l.align
  rw [Nat.mul_comm] at hdiv
  change l.size ≤ (l.size + l.align - 1) / l.align * l.align
  omega

end Layout

end RustyOs.Allocator
