import Mathlib

/-!
Arithmetic on 32-bit words that stops when a result does not fit, and words in little-endian
order inside a block of bytes.

An operation that would leave the range of a word has no value here, so a computation that
has one neither overflowed nor went below zero on the way.
-/

namespace RustyOs.Word32

def add32 (a b : UInt32) : Option UInt32 :=
  if a.toNat + b.toNat < 2 ^ 32 then some (a + b) else none

def sub32 (a b : UInt32) : Option UInt32 :=
  if b.toNat ≤ a.toNat then some (a - b) else none

def mul32 (a b : UInt32) : Option UInt32 :=
  if a.toNat * b.toNat < 2 ^ 32 then some (a * b) else none

lemma add32_eq_some {a b c : UInt32} : add32 a b = some c ↔ a.toNat + b.toNat = c.toNat := by
  have hc := c.toNat_lt
  unfold add32
  split_ifs with h
  · rw [Option.some_inj, ← UInt32.toNat_inj, UInt32.toNat_add, Nat.mod_eq_of_lt h]
  · simp only [false_iff]; omega

lemma sub32_eq_some {a b c : UInt32} : sub32 a b = some c ↔ a.toNat = b.toNat + c.toNat := by
  unfold sub32
  split_ifs with h
  · rw [Option.some_inj, ← UInt32.toNat_inj, UInt32.toNat_sub_of_le _ _ h]; omega
  · simp only [false_iff]; omega

lemma mul32_eq_some {a b c : UInt32} : mul32 a b = some c ↔ a.toNat * b.toNat = c.toNat := by
  have hc := c.toNat_lt
  unfold mul32
  split_ifs with h
  · rw [Option.some_inj, ← UInt32.toNat_inj, UInt32.toNat_mul, Nat.mod_eq_of_lt h]
  · simp only [false_iff]; omega

lemma toNat_ofNat32 {n : ℕ} (h : n < 2 ^ 32) : (UInt32.ofNat n).toNat = n :=
  UInt32.toNat_ofNat_of_lt' h

/-! ### Words as bytes -/

/-- The word with the bytes `b0`, `b1`, `b2`, `b3`, lowest first. -/
def fromLeBytes (b0 b1 b2 b3 : UInt8) : UInt32 :=
  UInt32.ofNat (b0.toNat + 2 ^ 8 * b1.toNat + 2 ^ 16 * b2.toNat + 2 ^ 24 * b3.toNat)

/-- Byte `k` of a word, the lowest being byte `0`. -/
def leByte (v : UInt32) (k : ℕ) : UInt8 := UInt8.ofNat (v.toNat / 2 ^ (8 * k))

lemma toNat_fromLeBytes (b0 b1 b2 b3 : UInt8) :
    (fromLeBytes b0 b1 b2 b3).toNat =
      b0.toNat + 2 ^ 8 * b1.toNat + 2 ^ 16 * b2.toNat + 2 ^ 24 * b3.toNat := by
  have h0 := b0.toNat_lt
  have h1 := b1.toNat_lt
  have h2 := b2.toNat_lt
  have h3 := b3.toNat_lt
  exact toNat_ofNat32 (by omega)

lemma toNat_leByte (v : UInt32) (k : ℕ) : (leByte v k).toNat = v.toNat / 2 ^ (8 * k) % 2 ^ 8 :=
  UInt8.toNat_ofNat'

lemma fromLeBytes_leByte (v : UInt32) :
    fromLeBytes (leByte v 0) (leByte v 1) (leByte v 2) (leByte v 3) = v := by
  have hv := v.toNat_lt
  rw [← UInt32.toNat_inj, toNat_fromLeBytes]
  simp only [toNat_leByte]
  norm_num
  omega

variable {n : ℕ}

/-- The word at offset `off` of a block. -/
def getWord (s : Fin n → UInt8) (off : ℕ) (h : off + 3 < n) : UInt32 :=
  fromLeBytes (s ⟨off, by omega⟩) (s ⟨off + 1, by omega⟩) (s ⟨off + 2, by omega⟩)
    (s ⟨off + 3, h⟩)

/-- The block with the word `v` stored at offset `off`. -/
def setWord (s : Fin n → UInt8) (off : ℕ) (v : UInt32) : Fin n → UInt8 := fun i =>
  if i.val = off then leByte v 0
  else if i.val = off + 1 then leByte v 1
  else if i.val = off + 2 then leByte v 2
  else if i.val = off + 3 then leByte v 3
  else s i

lemma getWord_setWord_self (s : Fin n → UInt8) (off : ℕ) (v : UInt32) (h : off + 3 < n) :
    getWord (setWord s off v) off h = v := by
  simp [getWord, setWord, fromLeBytes_leByte]

lemma setWord_outside (s : Fin n → UInt8) {off : ℕ} (v : UInt32) {i : Fin n}
    (h : i.val < off ∨ off + 3 < i.val) : setWord s off v i = s i := by
  simp only [setWord]
  rw [if_neg (by omega), if_neg (by omega), if_neg (by omega), if_neg (by omega)]

lemma setWord_inside (s t : Fin n → UInt8) {off : ℕ} (v : UInt32) {i : Fin n}
    (h : off ≤ i.val ∧ i.val ≤ off + 3) : setWord s off v i = setWord t off v i := by
  simp only [setWord]
  split_ifs
  all_goals first | rfl | omega

lemma getWord_setWord_of_ne (s : Fin n → UInt8) {off off' : ℕ} (v : UInt32) (h : off' + 3 < n)
    (hne : off' + 3 < off ∨ off + 3 < off') :
    getWord (setWord s off v) off' h = getWord s off' h := by
  have hbyte : ∀ k ≤ 3, ∀ hk : off' + k < n, setWord s off v ⟨off' + k, hk⟩ = s ⟨off' + k, hk⟩ := by
    intro k hk hlt
    apply setWord_outside
    dsimp only
    omega
  unfold getWord
  rw [hbyte 1 (by omega), hbyte 2 (by omega), hbyte 3 (by omega)]
  have := hbyte 0 (by omega) (by omega)
  simp only [Nat.add_zero] at this
  rw [this]

lemma setWord_comm (s : Fin n → UInt8) {off off' : ℕ} (v v' : UInt32)
    (hne : off' + 3 < off ∨ off + 3 < off') :
    setWord (setWord s off v) off' v' = setWord (setWord s off' v') off v := by
  funext i
  by_cases hi : off ≤ i.val ∧ i.val ≤ off + 3
  · rw [setWord_outside _ v' (by omega)]
    exact setWord_inside _ _ v hi
  · have hout : i.val < off ∨ off + 3 < i.val := by omega
    rw [setWord_outside _ v hout]
    by_cases hi' : off' ≤ i.val ∧ i.val ≤ off' + 3
    · exact setWord_inside _ _ v' hi'
    · have hout' : i.val < off' ∨ off' + 3 < i.val := by omega
      rw [setWord_outside _ v' hout', setWord_outside _ v hout, setWord_outside _ v' hout']

end RustyOs.Word32
