import RustyOs.CrashLogic
import RustyOs.Machine

/-!
A program that only reads, beside one that writes.

The writer keeps the store in one state of affairs until it returns, and leaves it in another.
A reader beside it meets stores of the first kind at its first reads and stores of the second
kind at the others, and it is told apart from a reader that had the store for itself only if it
can tell at which of its reads the change came. A scan of different blocks beside a change of
one of them cannot.
-/

namespace RustyOs.Snapshot

open RustyOs.BlockProg RustyOs.BlockProg.Prog RustyOs.CrashLogic RustyOs.Machine

variable {S A B E α β : Type} {I J : (A → B) → Prop} {r old new : Res E β}

/-- Whichever stores that meet `I` the program finds at its reads, it ends with `r`. -/
def Answers (I : (A → B) → Prop) (r : Res E α) : Prog S A B E α → Prop
  | .ret a => r = .ok a
  | .raise e => r = .err e
  | .abort => r = .panic
  | .read _ a k => ∀ d, I d → Answers I r (k (d a))
  | .write _ _ _ _ => False

/-- The program ends with `old` if all its reads find stores that meet `I`, and with `old` or
`new` if from some read on they find stores that meet `J`. -/
def Sees (I J : (A → B) → Prop) (old new : Res E α) : Prog S A B E α → Prop
  | .read s a k => (Answers J old (.read s a k) ∨ Answers J new (.read s a k)) ∧
      ∀ d, I d → Sees I J old new (k (d a))
  | p => Answers I old p

lemma Answers.mono {p : Prog S A B E β} (h : Answers I r p) (hJ : ∀ d, J d → I d) :
    Answers J r p := by
  induction p with
  | ret a => exact h
  | raise e => exact h
  | abort => exact h
  | read s a k ih => exact fun d hd => ih (d a) (h d (hJ d hd))
  | write s a b k ih => exact h.elim

lemma Answers.bind {p : Prog S A B E α} {f : α → Prog S A B E β} {a : α}
    (hp : Answers I (.ok a) p) (hf : Answers I r (f a)) : Answers I r (p >>= f) := by
  induction p with
  | ret x =>
    obtain rfl : a = x := by simpa [Answers] using hp
    exact hf
  | raise e => cases hp
  | abort => cases hp
  | read s x k ih => exact fun d hd => ih (d x) (hp d hd)
  | write s x b k ih => exact hp.elim

lemma Answers.result {p : Prog S A B E β} (h : Answers I r p) {r' : Res E β}
    (hr : p.result? = some r') : r' = r := by
  cases p with
  | ret a => exact (Option.some.inj hr).symm.trans h.symm
  | raise e => exact (Option.some.inj hr).symm.trans h.symm
  | abort => exact (Option.some.inj hr).symm.trans h.symm
  | read s a k => cases hr
  | write s a b k => cases hr

lemma Sees.answers {p : Prog S A B E β} (h : Sees I J old new p) :
    Answers J old p ∨ Answers J new p := by
  cases p with
  | ret a => exact .inl h
  | raise e => exact .inl h
  | abort => exact .inl h
  | read s a k => exact h.1
  | write s a b k => exact h.elim

lemma Sees.result {p : Prog S A B E β} (h : Sees I J old new p) (hr : p.result? = some r) :
    r = old := by
  cases p with
  | ret a => exact (Option.some.inj hr).symm.trans (Eq.symm h)
  | raise e => exact (Option.some.inj hr).symm.trans (Eq.symm h)
  | abort => exact (Option.some.inj hr).symm.trans (Eq.symm h)
  | read s a k => cases hr
  | write s a b k => cases hr

lemma Sees.of_answers {p : Prog S A B E β} (h : Answers (fun d => I d ∨ J d) r p) :
    Sees I J r r p := by
  induction p with
  | ret a => exact h
  | raise e => exact h
  | abort => exact h
  | read s a k ih =>
    exact ⟨.inl (h.mono fun d hd => .inr hd), fun d hd => ih (d a) (h d (.inl hd))⟩
  | write s a b k ih => exact h.elim

lemma Sees.bind {p : Prog S A B E α} {f : α → Prog S A B E β} {a : α}
    (hp : Answers (fun d => I d ∨ J d) (.ok a) p) (hf : Sees I J old new (f a)) :
    Sees I J old new (p >>= f) := by
  induction p with
  | ret x =>
    obtain rfl : a = x := by simpa [Answers] using hp
    exact hf
  | raise e => cases hp
  | abort => cases hp
  | read s x k ih =>
    have hJ : Answers J (.ok a) (.read s x k) := hp.mono fun d hd => .inr hd
    exact ⟨hf.answers.imp hJ.bind hJ.bind, fun d hd => ih (d x) (hp d (.inl hd))⟩
  | write s x b k ih => exact hp.elim

/-! ### Scans -/

section scan

variable (s : S) (f : β → B → β)

/-- Blocks read one after the other into an accumulator. -/
def scan : List A → β → Prog S A B E β
  | [], acc => .ret acc
  | a :: as, acc => .read s a fun b => scan as (f acc b)

/-- What the scan of a store that does not change collects. -/
def collected (d : A → B) (as : List A) (acc : β) : β := as.foldl (fun x a => f x (d a)) acc

lemma scan_append (as bs : List A) (acc : β) : (scan s f (as ++ bs) acc : Prog S A B E β) =
    scan s f as acc >>= scan s f bs := by
  induction as generalizing acc with
  | nil => rfl
  | cons a as ih =>
    rw [List.cons_append, scan, scan, read_bind]
    simp only [ih]

variable {s f} {d₀ d₁ : A → B} {as : List A} {acc : β}

lemma answers_scan (h : ∀ d, I d → ∀ a ∈ as, d a = d₀ a) :
    Answers I (.ok (collected f d₀ as acc)) (scan s f as acc : Prog S A B E β) := by
  induction as generalizing acc with
  | nil => rfl
  | cons a as ih =>
    intro d hd
    rw [h d hd a List.mem_cons_self]
    exact ih fun d hd a ha => h d hd a (List.mem_cons_of_mem _ ha)

/-- **A scan beside a change of one block** finds all blocks as they were or all as they are:
it has passed the block before the change, or it comes to it afterwards. -/
theorem sees_scan {l : A} (hnd : as.Nodup) (hI : ∀ d, I d → ∀ a ∈ as, d a = d₀ a)
    (hJ : ∀ d, J d → ∀ a ∈ as, d a = d₁ a) (hl : ∀ a ∈ as, a ≠ l → d₁ a = d₀ a)
    (hnew : l ∈ as → new = .ok (collected f d₁ as acc)) :
    Sees I J (.ok (collected f d₀ as acc)) new (scan s f as acc : Prog S A B E β) := by
  induction as generalizing acc with
  | nil => rfl
  | cons a as ih =>
    obtain ⟨ha, hnd⟩ := List.nodup_cons.mp hnd
    refine ⟨?_, fun d hd => ?_⟩
    · by_cases hm : l ∈ a :: as
      · right
        rw [hnew hm]
        exact answers_scan hJ
      · refine .inl (answers_scan fun d hd x hx => ?_)
        exact (hJ d hd x hx).trans (hl x hx (ne_of_mem_of_not_mem hx hm))
    · rw [hI d hd a List.mem_cons_self]
      refine ih hnd (fun d hd x hx => hI d hd x (List.mem_cons_of_mem _ hx))
        (fun d hd x hx => hJ d hd x (List.mem_cons_of_mem _ hx))
        (fun x hx => hl x (List.mem_cons_of_mem _ hx)) fun hm => ?_
      -- the block is still to come, so this one has not changed
      have hne : a ≠ l := fun h => ha (h ▸ hm)
      calc new = .ok (collected f d₁ as (f acc (d₁ a))) := hnew (List.mem_cons_of_mem _ hm)
        _ = .ok (collected f d₁ as (f acc (d₀ a))) := by rw [hl a List.mem_cons_self hne]

end scan

/-! ### A writer and a reader -/

variable [DecidableEq A]

structure Beside (S A B E α β : Type) where
  writer : Prog S A B E α
  reader : Prog S A B E β
  store : A → B

/-- One transfer of the reader, or of the writer. -/
def Beside.step (c : Beside S A B E α β) (reads : Bool) : Option (Beside S A B E α β) :=
  if reads then (c.reader.step c.store).map fun x => { c with reader := x.1, store := x.2 }
  else (c.writer.step c.store).map fun x => { c with writer := x.1, store := x.2 }

/-- The writer keeps to `I` until it returns, and then the store meets `J`. -/
def Turns (I J : (A → B) → Prop) (w : Prog S A B E α) (d : A → B) : Prop :=
  ∀ n, ((∃ a, (stop w n d).1 = some (.ok a)) ∧ J (cut w n d)) ∨ I (cut w n d)

lemma Turns.step {w w' : Prog S A B E α} {d d' : A → B} (h : Turns I J w d)
    (hs : w.step d = some (w', d')) : Turns I J w' d' := by
  intro n
  cases w with
  | ret a => cases hs
  | raise e => cases hs
  | abort => cases hs
  | read s a k =>
    obtain ⟨rfl, rfl⟩ := Prod.mk.inj (Option.some.inj hs)
    exact h (n + 1)
  | write s a b k =>
    obtain ⟨rfl, rfl⟩ := Prod.mk.inj (Option.some.inj hs)
    exact h (n + 1)

/-- The store has not been turned and the reader has seen nothing of it; or it has been, and
the reader is on its way to one of its answers. -/
def Beside.Inv (I J : (A → B) → Prop) (old new : Res E β) (c : Beside S A B E α β) : Prop :=
  Turns I J c.writer c.store ∧ Sees I J old new c.reader ∧ I c.store ∨
    (∃ a, c.writer = .ret a) ∧ J c.store ∧ (Answers J old c.reader ∨ Answers J new c.reader)

variable {c c' : Beside S A B E α β}

lemma Beside.Inv.of_turns (ht : Turns I J c.writer c.store) (hs : Sees I J old new c.reader) :
    c.Inv I J old new := by
  have h0 := ht 0
  rw [cut_zero, stop_zero] at h0
  rcases h0 with ⟨⟨a, ha⟩, hJ⟩ | hI
  · exact .inr ⟨⟨a, result?_eq_ok ha⟩, hJ, hs.answers⟩
  · exact .inl ⟨ht, hs, hI⟩

lemma Beside.Inv.step {reads : Bool} (h : c.Inv I J old new) (hs : c.step reads = some c') :
    c'.Inv I J old new := by
  obtain ⟨writer, reader, store⟩ := c
  cases reads with
  | false =>
    obtain ⟨⟨w', d'⟩, hw, rfl⟩ := Option.map_eq_some_iff.mp hs
    rcases h with ⟨ht, hsees, -⟩ | ⟨⟨a, ha⟩, -⟩
    · exact .of_turns (ht.step hw) hsees
    · obtain rfl : writer = .ret a := ha
      cases hw
  | true =>
    obtain ⟨⟨q, d'⟩, hq, rfl⟩ := Option.map_eq_some_iff.mp hs
    cases reader with
    | ret a => cases hq
    | raise e => cases hq
    | abort => cases hq
    | read s a k =>
      obtain ⟨rfl, rfl⟩ := Prod.mk.inj (Option.some.inj hq)
      rcases h with ⟨ht, hsees, hI⟩ | ⟨hret, hJ, hans⟩
      · exact .inl ⟨ht, hsees.2 _ hI, hI⟩
      · exact .inr ⟨hret, hJ, hans.imp (fun h => h _ hJ) fun h => h _ hJ⟩
    | write s a b k =>
      rcases h with ⟨-, hsees, -⟩ | ⟨-, -, hans⟩
      · exact hsees.elim
      · exact (or_self_iff.mp hans).elim

/-- **The reader returns the old answer or the new one**, in whatever order the transfers are
made. -/
theorem Beside.reader_result {w : Prog S A B E α} {p : Prog S A B E β} {d : A → B}
    (ht : Turns I J w d) (hs : Sees I J old new p)
    (h : Reach Beside.step (fun _ _ => True) ⟨w, p, d⟩ c) (hr : c.reader.result? = some r) :
    r = old ∨ r = new := by
  have hinv : c.Inv I J old new :=
    h.inv (.of_turns ht hs) fun c reads c' hi _ hstep => hi.step hstep
  rcases hinv with ⟨-, hsees, -⟩ | ⟨-, -, hans⟩
  · exact .inl (hsees.result hr)
  · exact hans.imp (fun h => h.result hr) fun h => h.result hr

end RustyOs.Snapshot
