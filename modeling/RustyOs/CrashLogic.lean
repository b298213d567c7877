import RustyOs.BlockProg

/-!
What a program over a store of blocks leaves behind when it is cut off.

A transfer is made or not made; a run that is cut off has made its first transfers and none of
the others. A triple says what holds when the program returns, and also what holds of the store
after every cut. A program commits last when it changes the store only in a transfer that makes
it return.
-/

namespace RustyOs.CrashLogic

open RustyOs.BlockProg RustyOs.BlockProg.Prog

variable {S A B E α β : Type}

/-! ### Programs that only read -/

def ReadOnly : Prog S A B E α → Prop
  | .read _ _ k => ∀ b, ReadOnly (k b)
  | .write _ _ _ _ => False
  | _ => True

lemma ReadOnly.bind {p : Prog S A B E α} {f : α → Prog S A B E β} (h : ReadOnly p)
    (hf : ∀ a, ReadOnly (f a)) : ReadOnly (p >>= f) := by
  induction p with
  | ret a => exact hf a
  | raise e => exact h
  | abort => exact h
  | read s a k ih => exact fun b => ih b (h b)
  | write s a b k ih => exact h.elim

lemma readOnly_ofOption (o : Option α) : ReadOnly (.ofOption o : Prog S A B E α) := by
  cases o <;> trivial

/-! ### Programs that store something -/

/-- The program cannot return without having stored something. -/
def Stores : Prog S A B E α → Prop
  | .ret _ => False
  | .read _ _ k => ∀ b, Stores (k b)
  | _ => True

lemma Stores.bind {f : α → Prog S A B E β} (p : Prog S A B E α) (hf : ∀ a, Stores (f a)) :
    Stores (p >>= f) := by
  induction p with
  | ret a => exact hf a
  | raise e => trivial
  | abort => trivial
  | read s a k ih => exact ih
  | write s a b k ih => trivial

/-! ### Cuts -/

variable [DecidableEq A] {d : A → B}

/-- A run alone, cut off after `n` transfers: its result, if it has come to one by then, and the
store. -/
def stop : Prog S A B E α → ℕ → (A → B) → Option (Res E α) × (A → B)
  | .read _ a k, n + 1, d => stop (k (d a)) n d
  | .write _ a b k, n + 1, d => stop k n (Function.update d a b)
  | p, _, d => (p.result?, d)

/-- The store after the first `n` transfers of a run alone. -/
def cut (p : Prog S A B E α) (n : ℕ) (d : A → B) : A → B := (stop p n d).2

@[simp] lemma stop_zero (p : Prog S A B E α) (d : A → B) : stop p 0 d = (p.result?, d) := by
  cases p <;> rfl

@[simp] lemma cut_zero (p : Prog S A B E α) (d : A → B) : cut p 0 d = d := by
  rw [cut, stop_zero]

lemma exec_of_stop {p : Prog S A B E α} {n : ℕ} {r : Res E α} (h : (stop p n d).1 = some r) :
    exec p d = (r, cut p n d) := by
  induction p generalizing n d with
  | ret a => exact Prod.ext (Option.some.inj h) rfl
  | raise e => exact Prod.ext (Option.some.inj h) rfl
  | abort => exact Prod.ext (Option.some.inj h) rfl
  | read s a k ih =>
    cases n with
    | zero => cases h
    | succ n => exact ih (d a) h
  | write s a b k ih =>
    cases n with
    | zero => cases h
    | succ n => exact ih h

lemma exists_stop (p : Prog S A B E α) (d : A → B) :
    ∃ n, stop p n d = (some (exec p d).1, (exec p d).2) := by
  induction p generalizing d with
  | ret a => exact ⟨0, rfl⟩
  | raise e => exact ⟨0, rfl⟩
  | abort => exact ⟨0, rfl⟩
  | read s a k ih =>
    obtain ⟨n, hn⟩ := ih (d a) d
    exact ⟨n + 1, hn⟩
  | write s a b k ih =>
    obtain ⟨n, hn⟩ := ih (Function.update d a b)
    exact ⟨n + 1, hn⟩

lemma stop_bind (p : Prog S A B E α) (f : α → Prog S A B E β) (n : ℕ) (d : A → B) :
    ∃ m, ((∀ b, (stop (p >>= f) n d).1 ≠ some (.ok b)) ∧ cut (p >>= f) n d = cut p m d) ∨
      ∃ a d', exec p d = (.ok a, d') ∧ stop (p >>= f) n d = stop (f a) m d' := by
  induction p generalizing n d with
  | ret a => exact ⟨n, .inr ⟨a, d, rfl, rfl⟩⟩
  | raise e => exact ⟨n, .inl ⟨fun b => nofun, rfl⟩⟩
  | abort => exact ⟨n, .inl ⟨fun b => nofun, rfl⟩⟩
  | read s a k ih =>
    cases n with
    | zero => exact ⟨0, .inl ⟨fun b => nofun, by simp⟩⟩
    | succ n =>
      obtain ⟨m, h | ⟨x, d', he, h⟩⟩ := ih (d a) n d
      · exact ⟨m + 1, .inl h⟩
      · exact ⟨m, .inr ⟨x, d', he, h⟩⟩
  | write s a b k ih =>
    cases n with
    | zero => exact ⟨0, .inl ⟨fun b => nofun, by simp⟩⟩
    | succ n =>
      obtain ⟨m, h | ⟨x, d', he, h⟩⟩ := ih n (Function.update d a b)
      · exact ⟨m + 1, .inl h⟩
      · exact ⟨m, .inr ⟨x, d', he, h⟩⟩

lemma ReadOnly.cut_eq {p : Prog S A B E α} (h : ReadOnly p) (n : ℕ) (d : A → B) :
    cut p n d = d := by
  induction p generalizing n with
  | ret a => rfl
  | raise e => rfl
  | abort => rfl
  | read s a k ih =>
    cases n with
    | zero => rfl
    | succ n => exact ih (d a) (h (d a)) n
  | write s a b k ih => exact h.elim

lemma ReadOnly.exec_snd {p : Prog S A B E α} (h : ReadOnly p) (d : A → B) :
    (exec p d).2 = d := by
  obtain ⟨n, hn⟩ := exists_stop p d
  exact (congrArg Prod.snd hn).symm.trans (h.cut_eq n d)

/-- What a run alone stores, in order. -/
def writes : Prog S A B E α → (A → B) → List (A × B)
  | .read _ a k, d => writes (k (d a)) d
  | .write _ a b k, d => (a, b) :: writes k (Function.update d a b)
  | _, _ => []

lemma Stores.writes_ne_nil {p : Prog S A B E α} {a : α} (h : Stores p)
    (hp : (exec p d).1 = .ok a) : writes p d ≠ [] := by
  induction p with
  | ret a => exact h.elim
  | raise e => cases hp
  | abort => cases hp
  | read s a k ih => exact ih (d a) (h (d a)) hp
  | write s a b k ih => exact List.cons_ne_nil _ _

/-! ### Triples -/

/-- From a store that meets `P`, every cut leaves a store that meets `C`, and a run that returns
ends in `Q`. -/
def Triple (P : (A → B) → Prop) (p : Prog S A B E α) (Q : α → (A → B) → Prop)
    (C : (A → B) → Prop) : Prop :=
  ∀ d, P d → (∀ n, C (cut p n d)) ∧ ∀ a d', exec p d = (.ok a, d') → Q a d'

section rules

variable {P R C : (A → B) → Prop} {Q : α → (A → B) → Prop} {Q' : β → (A → B) → Prop}

lemma Triple.ret {a : α} (hQ : ∀ d, P d → Q a d) (hC : ∀ d, P d → C d) :
    Triple P (.ret a : Prog S A B E α) Q C := by
  refine fun d hd => ⟨fun n => hC d hd, fun x d' h => ?_⟩
  cases h
  exact hQ d hd

lemma Triple.of_readOnly {p : Prog S A B E α} (hp : ReadOnly p) (hC : ∀ d, P d → C d)
    (hQ : ∀ d a, P d → exec p d = (.ok a, d) → Q a d) : Triple P p Q C := by
  refine fun d hd => ⟨fun n => ?_, fun a d' h => ?_⟩
  · rw [hp.cut_eq]
    exact hC d hd
  · obtain rfl : d' = d := by
      have hsnd := hp.exec_snd d
      rwa [h] at hsnd
    exact hQ d' a hd h

lemma Triple.write {s : S} {a : A} {b : B} {k : Prog S A B E α} (hC : ∀ d, P d → C d)
    (hP : ∀ d, P d → R (Function.update d a b)) (h : Triple R k Q C) :
    Triple P (.write s a b k) Q C := by
  refine fun d hd => ⟨fun n => ?_, fun x d' hx => (h _ (hP d hd)).2 x d' hx⟩
  cases n with
  | zero => exact hC d hd
  | succ n => exact (h _ (hP d hd)).1 n

lemma Triple.read {s : S} {a : A} {k : B → Prog S A B E α} (hC : ∀ d, P d → C d)
    (h : ∀ b, Triple (fun d => P d ∧ d a = b) (k b) Q C) : Triple P (.read s a k) Q C := by
  refine fun d hd => ⟨fun n => ?_, fun x d' hx => (h (d a) d ⟨hd, rfl⟩).2 x d' hx⟩
  cases n with
  | zero => exact hC d hd
  | succ n => exact (h (d a) d ⟨hd, rfl⟩).1 n

/-- **The rule for programs in sequence.** -/
theorem Triple.bind {p : Prog S A B E α} {f : α → Prog S A B E β} (hp : Triple P p Q C)
    (hf : ∀ a, Triple (Q a) (f a) Q' C) : Triple P (p >>= f) Q' C := by
  refine fun d hd => ⟨fun n => ?_, fun b d' h => ?_⟩
  · obtain ⟨m, ⟨-, h⟩ | ⟨a, d', he, h⟩⟩ := stop_bind p f n d
    · rw [h]
      exact (hp d hd).1 m
    · rw [cut, h]
      exact (hf a d' ((hp d hd).2 a d' he)).1 m
  · obtain ⟨a, d₁, h₁, h₂⟩ := exec_of_bind_ok h
    exact (hf a d₁ ((hp d hd).2 a d₁ h₁)).2 b d' h₂

end rules

/-! ### Programs that commit last -/

/-- Cut off anywhere, the program has returned, or the store is what it was. -/
def CommitsLast (p : Prog S A B E α) (d : A → B) : Prop :=
  ∀ n, (∃ a, (stop p n d).1 = some (.ok a)) ∨ cut p n d = d

lemma CommitsLast.of_readOnly {p : Prog S A B E α} (h : ReadOnly p) (d : A → B) :
    CommitsLast p d :=
  fun n => .inr (h.cut_eq n d)

lemma CommitsLast.read {s : S} {a : A} {k : B → Prog S A B E α} (h : CommitsLast (k (d a)) d) :
    CommitsLast (.read s a k) d := by
  intro n
  cases n with
  | zero => exact .inr rfl
  | succ n => exact h n

lemma CommitsLast.write (s : S) (a : A) (b : B) (x : α) (d : A → B) :
    CommitsLast (.write s a b (.ret x) : Prog S A B E α) d := by
  intro n
  cases n with
  | zero => exact .inr rfl
  | succ n => exact .inl ⟨x, rfl⟩

lemma CommitsLast.bind {p : Prog S A B E α} {f : α → Prog S A B E β} (hp : ReadOnly p)
    (hf : ∀ a, CommitsLast (f a) d) : CommitsLast (p >>= f) d := by
  induction p with
  | ret a => exact hf a
  | raise e => exact fun n => .inr rfl
  | abort => exact fun n => .inr rfl
  | read s a k ih => exact .read (ih (d a) (hp (d a)))
  | write s a b k ih => exact hp.elim

end RustyOs.CrashLogic
