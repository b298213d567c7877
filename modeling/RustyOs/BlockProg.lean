import Mathlib

/-!
Programs over a store of blocks.

A program is a tree: it waits for one block, or for one block to be stored, and goes on with
what it got. Running it alone gives a result and a store; two programs can also take turns,
one transfer at a time, and every place where a program waits carries a name, so that a
schedule can be judged by where the other program stands.
-/

namespace RustyOs.BlockProg

/-- How a program ends: with a value, with an error it reports, or by giving up. -/
inductive Res (E α : Type)
  | ok (a : α)
  | err (e : E)
  | panic
  deriving DecidableEq, Repr

/-- A program that waits at places named by `S`, over blocks `B` at addresses `A`. -/
inductive Prog (S A B E α : Type) : Type
  | ret (a : α)
  | raise (e : E)
  | abort
  | read (s : S) (a : A) (k : B → Prog S A B E α)
  | write (s : S) (a : A) (b : B) (k : Prog S A B E α)

namespace Prog

variable {S A B E α β : Type}

def bind : Prog S A B E α → (α → Prog S A B E β) → Prog S A B E β
  | ret a, f => f a
  | raise e, _ => raise e
  | abort, _ => abort
  | read s a k, f => read s a fun b => (k b).bind f
  | write s a b k, f => write s a b (k.bind f)

instance : Monad (Prog S A B E) where
  pure := ret
  bind := bind

@[simp] lemma pure_eq (a : α) : (pure a : Prog S A B E α) = ret a := rfl
@[simp] lemma ret_bind (a : α) (f : α → Prog S A B E β) : ret a >>= f = f a := rfl
@[simp] lemma read_bind (s : S) (a : A) (k : B → Prog S A B E α) (f : α → Prog S A B E β) :
    read s a k >>= f = read s a fun b => k b >>= f := rfl
@[simp] lemma write_bind (s : S) (a : A) (b : B) (k : Prog S A B E α) (f : α → Prog S A B E β) :
    write s a b k >>= f = write s a b (k >>= f) := rfl

lemma bind_ret (p : Prog S A B E α) : p >>= ret = p := by
  induction p with
  | ret a => rfl
  | raise e => rfl
  | abort => rfl
  | read s a k ih => simp only [read_bind, ih]
  | write s a b k ih => rw [write_bind, ih]

/-- A value that may be missing; a program that needs it gives up without it. -/
def ofOption : Option α → Prog S A B E α
  | some a => ret a
  | none => abort

@[simp] lemma ofOption_some (a : α) : (ofOption (some a) : Prog S A B E α) = ret a := rfl

/-- Where the program waits, unless it has ended. -/
def site? : Prog S A B E α → Option S
  | read s _ _ => some s
  | write s _ _ _ => some s
  | _ => none

/-- How the program has ended, if it has. -/
def result? : Prog S A B E α → Option (Res E α)
  | ret a => some (.ok a)
  | raise e => some (.err e)
  | abort => some .panic
  | _ => none

lemma result?_eq_ok {p : Prog S A B E α} {a : α} (h : p.result? = some (.ok a)) : p = ret a := by
  cases p <;> simp_all [result?]

/-! ### Running alone -/

variable [DecidableEq A]

/-- The run of a program with nobody else at the store. -/
def exec : Prog S A B E α → (A → B) → Res E α × (A → B)
  | ret a, d => (.ok a, d)
  | raise e, d => (.err e, d)
  | abort, d => (.panic, d)
  | read _ a k, d => exec (k (d a)) d
  | write _ a b k, d => exec k (Function.update d a b)

@[simp] lemma exec_ret (a : α) (d : A → B) :
    exec (ret a : Prog S A B E α) d = (.ok a, d) := rfl
@[simp] lemma exec_raise (e : E) (d : A → B) :
    exec (raise e : Prog S A B E α) d = (.err e, d) := rfl
@[simp] lemma exec_read (s : S) (a : A) (k : B → Prog S A B E α) (d : A → B) :
    exec (read s a k) d = exec (k (d a)) d := rfl
@[simp] lemma exec_write (s : S) (a : A) (b : B) (k : Prog S A B E α) (d : A → B) :
    exec (write s a b k) d = exec k (Function.update d a b) := rfl

lemma exec_bind (p : Prog S A B E α) (f : α → Prog S A B E β) (d : A → B) :
    exec (p >>= f) d = match exec p d with
      | (.ok a, d') => exec (f a) d'
      | (.err e, d') => (.err e, d')
      | (.panic, d') => (.panic, d') := by
  induction p generalizing d with
  | ret a => rfl
  | raise e => rfl
  | abort => rfl
  | read s a k ih => exact ih (d a) d
  | write s a b k ih => exact ih (Function.update d a b)

lemma exec_bind_ok {p : Prog S A B E α} {d d' : A → B} {a : α} (h : exec p d = (.ok a, d'))
    (f : α → Prog S A B E β) : exec (p >>= f) d = exec (f a) d' := by
  rw [exec_bind, h]

lemma exec_bind_err {p : Prog S A B E α} {d d' : A → B} {e : E} (h : exec p d = (.err e, d'))
    (f : α → Prog S A B E β) : exec (p >>= f) d = (.err e, d') := by
  rw [exec_bind, h]

lemma exec_bind_panic {p : Prog S A B E α} {d d' : A → B} (h : exec p d = (.panic, d'))
    (f : α → Prog S A B E β) : exec (p >>= f) d = (.panic, d') := by
  rw [exec_bind, h]

/-- The addresses a run alone reads from, in order. -/
def reads : Prog S A B E α → (A → B) → List A
  | ret _, _ => []
  | raise _, _ => []
  | abort, _ => []
  | read _ a k, d => a :: (k (d a)).reads d
  | write _ a b k, d => k.reads (Function.update d a b)

lemma reads_bind_ok {p : Prog S A B E α} {d d' : A → B} {a : α} (h : exec p d = (.ok a, d'))
    (f : α → Prog S A B E β) : (p >>= f).reads d = p.reads d ++ (f a).reads d' := by
  induction p generalizing d with
  | ret x =>
    cases h
    rfl
  | raise e => cases h
  | abort => cases h
  | read s x k ih => exact congrArg (x :: ·) (ih (d x) h)
  | write s x b k ih => exact ih h

lemma exec_of_bind_ok {p : Prog S A B E α} {f : α → Prog S A B E β} {d d' : A → B} {b : β}
    (h : exec (p >>= f) d = (.ok b, d')) :
    ∃ a d₁, exec p d = (.ok a, d₁) ∧ exec (f a) d₁ = (.ok b, d') := by
  rw [exec_bind] at h
  rcases hp : exec p d with ⟨a | e | _, d₁⟩ <;> rw [hp] at h
  · exact ⟨a, d₁, rfl, h⟩
  · cases h
  · cases h

/-! ### Taking turns -/

/-- One transfer. -/
def step : Prog S A B E α → (A → B) → Option (Prog S A B E α × (A → B))
  | read _ a k, d => some (k (d a), d)
  | write _ a b k, d => some (k, Function.update d a b)
  | _, _ => none

/-- Two programs and the store they share. -/
structure Pair (S A B E α : Type) where
  fst : Prog S A B E α
  snd : Prog S A B E α
  store : A → B

/-- One program, `false` for the first, makes its next transfer. -/
def Pair.step (c : Pair S A B E α) (who : Bool) : Option (Pair S A B E α) :=
  if who then (c.snd.step c.store).map fun r => ⟨c.fst, r.1, r.2⟩
  else (c.fst.step c.store).map fun r => ⟨r.1, c.snd, r.2⟩

/-- The state after a schedule, if every program named in it had a transfer to make and every
state on the way met `P`. -/
def Pair.run (P : Pair S A B E α → Prop) [DecidablePred P] (c : Pair S A B E α) :
    List Bool → Option (Pair S A B E α)
  | [] => if P c then some c else none
  | w :: ws => if P c then (c.step w).bind fun c' => c'.run P ws else none

/-- **The invariant rule for two programs**: what a step between states meeting `P` preserves
holds at the end of every schedule whose states meet `P`. -/
theorem Pair.run_inv {P I : Pair S A B E α → Prop} [DecidablePred P]
    (hstep : ∀ c w c', P c → I c → c.step w = some c' → P c' → I c') {c c' : Pair S A B E α}
    {ws : List Bool} (h : c.run P ws = some c') (hi : I c) : I c' := by
  induction ws generalizing c with
  | nil =>
    simp only [run] at h
    split_ifs at h
    exact Option.some_inj.mp h ▸ hi
  | cons w ws ih =>
    simp only [run] at h
    split_ifs at h with hp
    obtain ⟨c₁, hs, hrun⟩ := Option.bind_eq_some_iff.mp h
    have hp₁ : P c₁ := by
      by_contra hn
      cases ws <;> simp [run, hn] at hrun
    exact ih hrun (hstep c w c₁ hp hi hs hp₁)

end Prog

end RustyOs.BlockProg
