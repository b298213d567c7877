import RustyOs.Machine

/-!
Locks on one processor with interrupts.

A spin lock that is taken by whoever runs on the processor can only be given back by the one who
took it. If an interrupt comes in between and its handler wants the same lock, the handler waits
for ever: it runs on the processor the holder would need. So either the handlers do not use the
lock, or it is only held while interrupts are off. They are off in a handler; elsewhere one asks
whether they are on, turns them off, and in the end brings them back to what they were. How this
is done is a parameter.

Under this discipline no one ever waits for a lock, handlers return, what is done under a lock is
done piece by piece without anything in between, and interrupts are on or off as if there were no
locks at all.
-/

namespace RustyOs.Masking

open RustyOs.Machine

/-- What is done under a lock is a list of items. -/
inductive Job (ι α : Type)
  /-- With interrupts off. -/
  | guarded (i : ι) (items : List α)
  /-- With interrupts as they are. -/
  | bare (i : ι) (items : List α)
  | setFlag (b : Bool)

/-- How interrupts are turned off for a while: `ask` is remembered, `mask` is the flag when they
have been turned off, and `leave` the flag in the end. -/
structure Guard (σ : Type) where
  ask : Bool → σ
  mask : σ → Bool → Bool
  leave : σ → Bool → Bool
  mask_ask : ∀ flag, mask (ask flag) flag = false
  leave_ask : ∀ flag, leave (ask flag) false = flag

/-- How far the job is; `saved` is what the guard remembers, if the job has one. -/
inductive Phase (σ ι α : Type)
  | idle
  | asked (saved : σ) (i : ι) (items : List α)
  | waiting (saved : Option σ) (i : ι) (items : List α)
  | locked (saved : Option σ) (i : ι) (items : List α)
  | released (saved : Option σ)

/-- Whether interrupts are on, the locks, the items done under each, and the lists of items that
were begun. -/
structure Core (ι α : Type) where
  flag : Bool
  lock : ι → Bool
  done : ι → List α
  log : ι → List (List α)

variable {σ ι α : Type} [DecidableEq ι]

section steps

variable (g : Guard σ) (c : Core ι α)

def Job.begin : Job ι α → Core ι α × Phase σ ι α
  | .guarded i items => (c, .asked (g.ask c.flag) i items)
  | .bare i items => (c, .waiting none i items)
  | .setFlag b => ({ c with flag := b }, .idle)

def Phase.step : Phase σ ι α → Core ι α × Phase σ ι α
  | .idle => (c, .idle)
  | .asked saved i items => ({ c with flag := g.mask saved c.flag }, .waiting (some saved) i items)
  | .waiting saved i items =>
    if c.lock i then (c, .waiting saved i items)
    else
      ({ c with
          lock := Function.update c.lock i true
          log := Function.update c.log i (c.log i ++ [items]) }, .locked saved i items)
  | .locked saved i (x :: items) =>
    ({ c with done := Function.update c.done i (c.done i ++ [x]) }, .locked saved i items)
  | .locked saved i [] => ({ c with lock := Function.update c.lock i false }, .released saved)
  | .released saved =>
    ({ c with flag := saved.elim c.flag fun saved => g.leave saved c.flag }, .idle)

end steps

/-- The flag the main program wants, after the job. -/
def Job.own (b : Bool) : Job ι α → Bool
  | .setFlag b => b
  | .guarded _ _ | .bare _ _ => b

/-- The main program, and the handler that has interrupted it, with the jobs the handler still
has to do. `own` is what the main program has set the flag to. -/
structure Sys (σ ι α : Type) where
  core : Core ι α
  main : Phase σ ι α
  handler : Option (Phase σ ι α × List (Job ι α))
  own : Bool

inductive Event (ι α : Type)
  /-- The main program begins a job. -/
  | begin (j : Job ι α)
  /-- Who runs goes on. -/
  | step
  | interrupt (js : List (Job ι α))

namespace Sys

def initial (σ ι α : Type) : Sys σ ι α :=
  ⟨⟨false, fun _ => false, fun _ => [], fun _ => []⟩, .idle, none, false⟩

variable (g : Guard σ)

def begin (s : Sys σ ι α) (j : Job ι α) : Option (Sys σ ι α) :=
  match s.handler, s.main with
  | none, .idle =>
    some { s with core := (j.begin g s.core).1, main := (j.begin g s.core).2, own := j.own s.own }
  | _, _ => none

def step (s : Sys σ ι α) : Sys σ ι α :=
  match s.handler with
  | none => { s with core := (s.main.step g s.core).1, main := (s.main.step g s.core).2 }
  -- the end of the interrupt: the flag is what it was
  | some (.idle, []) => { s with core := { s.core with flag := true }, handler := none }
  | some (.idle, j :: js) =>
    { s with core := (j.begin g s.core).1, handler := some ((j.begin g s.core).2, js) }
  | some (p, js) =>
    { s with core := (p.step g s.core).1, handler := some ((p.step g s.core).2, js) }

def interrupt (s : Sys σ ι α) (js : List (Job ι α)) : Option (Sys σ ι α) :=
  match s.handler with
  | none =>
    if s.core.flag then
      some { s with core := { s.core with flag := false }, handler := some (.idle, js) }
    else none
  | some _ => none

def next (s : Sys σ ι α) : Event ι α → Option (Sys σ ι α)
  | .begin j => s.begin g j
  | .step => some (s.step g)
  | .interrupt js => s.interrupt js

end Sys

/-! ### The discipline -/

/-- The job is one for a handler: it uses locks that are shared with handlers. -/
def Job.ForHandler (shared : ι → Prop) : Job ι α → Prop
  | .guarded i _ | .bare i _ => shared i
  | .setFlag _ => False

/-- Handlers use shared locks only, and the main program does not take these with interrupts
on. -/
def Disciplined (shared : ι → Prop) (s : Sys σ ι α) : Event ι α → Prop
  | .begin (.bare i _) => shared i → s.core.flag = false
  | .begin _ | .step => True
  | .interrupt js => ∀ j ∈ js, j.ForHandler shared

/-! ### Who holds what -/

namespace Phase

def holds (i : ι) : Phase σ ι α → Bool
  | .locked _ j _ => j = i
  | _ => false

/-- The items that are still to be done under the lock. -/
def left (i : ι) : Phase σ ι α → List α
  | .locked _ j items => if j = i then items else []
  | _ => []

section simps

variable (i j : ι) (saved : Option σ) (items : List α)

@[simp] lemma holds_idle : (idle : Phase σ ι α).holds i = false := rfl
@[simp] lemma holds_waiting : (waiting saved j items).holds i = false := rfl
@[simp] lemma holds_locked : (locked saved j items).holds i = decide (j = i) := rfl
@[simp] lemma holds_released : (released saved : Phase σ ι α).holds i = false := rfl
@[simp] lemma left_idle : (idle : Phase σ ι α).left i = [] := rfl
@[simp] lemma left_waiting : (waiting saved j items).left i = [] := rfl
@[simp] lemma left_locked : (locked saved j items).left i = if j = i then items else [] := rfl
@[simp] lemma left_released : (released saved : Phase σ ι α).left i = [] := rfl

end simps

lemma left_eq_nil {p : Phase σ ι α} {i : ι} (h : p.holds i = false) : p.left i = [] := by
  cases p with
  | locked saved j items => exact if_neg (by simpa using h)
  | _ => rfl

end Phase

/-- A lock is held by one of the two at most, and what has been done under it is the lists that
were begun, up to what the holder has left to do. -/
def Owns (c : Core ι α) (o p : Phase σ ι α) : Prop :=
  ∀ i, (o.holds i).toNat + (p.holds i).toNat = (c.lock i).toNat ∧
    c.done i ++ (o.left i ++ p.left i) = (c.log i).flatten

variable {g : Guard σ} {c : Core ι α} {o p : Phase σ ι α} {i : ι}

lemma Owns.swap_idle (h : Owns c .idle p) : Owns c p .idle := by
  intro i
  obtain ⟨hlock, hlog⟩ := h i
  exact ⟨by rw [← hlock, Nat.add_comm], by simpa using hlog⟩

lemma Owns.idle_swap (h : Owns c p .idle) : Owns c .idle p := by
  intro i
  obtain ⟨hlock, hlog⟩ := h i
  exact ⟨by rw [← hlock, Nat.add_comm], by simpa using hlog⟩

lemma Owns.congr {c' : Core ι α} {p' : Phase σ ι α} (h : Owns c o p) (hlock : c'.lock = c.lock)
    (hdone : c'.done = c.done) (hlog : c'.log = c.log) (hp : ∀ i, p'.holds i = p.holds i)
    (hl : ∀ i, p'.left i = p.left i) : Owns c' o p' := by
  intro i
  rw [hlock, hdone, hlog, hp, hl]
  exact h i

lemma Owns.begin (h : Owns c o .idle) (j : Job ι α) : Owns (j.begin g c).1 o (j.begin g c).2 := by
  cases j <;> exact h.congr rfl rfl rfl (fun _ => rfl) (fun _ => rfl)

lemma Owns.free (h : Owns c o p) (hi : c.lock i = false) :
    o.holds i = false ∧ p.holds i = false := by
  have hlock := (h i).1
  rw [hi] at hlock
  cases ho : o.holds i <;> cases hp : p.holds i <;> simp_all

lemma Owns.acquire {saved : Option σ} {items : List α} (h : Owns c o (.waiting saved i items))
    (hi : c.lock i = false) :
    Owns { c with
      lock := Function.update c.lock i true
      log := Function.update c.log i (c.log i ++ [items]) } o (.locked saved i items) := by
  intro j
  obtain ⟨hlock, hlog⟩ := h j
  by_cases hij : i = j
  · subst hij
    have ho := (h.free hi).1
    have hleft := Phase.left_eq_nil ho
    rw [hleft] at hlog ⊢
    simp only [Phase.left_waiting, List.append_nil] at hlog
    simp [ho, hlog]
  · have hji : j ≠ i := fun e => hij e.symm
    simpa [hij, Function.update_of_ne hji] using And.intro hlock hlog

lemma Owns.other {saved : Option σ} {items : List α} (h : Owns c o (.locked saved i items)) :
    o.holds i = false ∧ o.left i = [] := by
  have hlock := (h i).1
  have ho : o.holds i = false := by
    cases ho : o.holds i
    · rfl
    · cases hi : c.lock i <;> simp [ho, hi] at hlock
  exact ⟨ho, Phase.left_eq_nil ho⟩

lemma Owns.item {saved : Option σ} {x : α} {items : List α}
    (h : Owns c o (.locked saved i (x :: items))) :
    Owns { c with done := Function.update c.done i (c.done i ++ [x]) } o
      (.locked saved i items) := by
  intro j
  obtain ⟨hlock, hlog⟩ := h j
  refine ⟨hlock, ?_⟩
  by_cases hij : i = j
  · subst hij
    rw [h.other.2] at hlog ⊢
    simpa using hlog
  · have hji : j ≠ i := fun e => hij e.symm
    simpa [hij, Function.update_of_ne hji] using hlog

lemma Owns.release {saved : Option σ} (h : Owns c o (.locked saved i [])) :
    Owns { c with lock := Function.update c.lock i false } o (.released saved) := by
  intro j
  obtain ⟨hlock, hlog⟩ := h j
  by_cases hij : i = j
  · subst hij
    obtain ⟨ho, hleft⟩ := h.other
    rw [hleft] at hlog ⊢
    simpa [ho] using hlog
  · have hji : j ≠ i := fun e => hij e.symm
    simpa [hij, Function.update_of_ne hji] using And.intro hlock hlog

lemma Owns.step (h : Owns c o p) : Owns (p.step g c).1 o (p.step g c).2 := by
  cases p with
  | idle => exact h
  | asked saved i items => exact h.congr rfl rfl rfl (fun _ => rfl) (fun _ => rfl)
  | waiting saved i items =>
    cases hi : c.lock i with
    | true => simpa [Phase.step, hi] using h
    | false => simpa [Phase.step, hi] using h.acquire hi
  | locked saved i items =>
    cases items with
    | nil => exact h.release
    | cons x items => exact h.item
  | released saved => exact h.congr rfl rfl rfl (fun _ => rfl) (fun _ => rfl)

/-! ### The flag -/

/-- Between the two ends of a guard interrupts are off, and the flag will be `own` in the end. -/
def Kept (g : Guard σ) (flag own : Bool) : Option σ → Prop
  | some saved => flag = false ∧ saved = g.ask own
  | none => flag = own

/-- What the main program knows when it runs: with a lock that is shared, interrupts are off, and
the flag will be its own in the end. -/
def Masks (g : Guard σ) (shared : ι → Prop) (flag own : Bool) : Phase σ ι α → Prop
  | .idle => flag = own
  | .asked saved _ _ => flag = own ∧ saved = g.ask own
  | .waiting saved i _ | .locked saved i _ => Kept g flag own saved ∧ (shared i → flag = false)
  | .released saved => Kept g flag own saved

/-- Where the main program may be interrupted. -/
def Interrupted (g : Guard σ) (shared : ι → Prop) : Phase σ ι α → Prop
  | .idle => True
  | .asked saved _ _ => saved = g.ask true
  | .waiting saved i _ | .locked saved i _ => saved = none ∧ ¬ shared i
  | .released saved => saved = none

/-- A handler leaves the flag off. -/
def Handles (g : Guard σ) (shared : ι → Prop) : Phase σ ι α → Prop
  | .idle => True
  | .asked saved i _ => saved = g.ask false ∧ shared i
  | .waiting saved i _ | .locked saved i _ => Kept g false false saved ∧ shared i
  | .released saved => Kept g false false saved

variable {shared : ι → Prop} {own : Bool}

omit [DecidableEq ι] in
lemma Masks.begin {j : Job ι α} (h : Masks g shared c.flag own (.idle : Phase σ ι α))
    (hok : ∀ i items, j = .bare i items → shared i → c.flag = false) :
    Masks g shared (j.begin g c).1.flag (j.own own) (j.begin g c).2 := by
  cases j with
  | guarded i items => exact ⟨h, congrArg g.ask h⟩
  | bare i items => exact ⟨h, hok i items rfl⟩
  | setFlag b => exact rfl

lemma Masks.step (h : Masks g shared c.flag own p) :
    Masks g shared (p.step g c).1.flag own (p.step g c).2 := by
  cases p with
  | idle => exact h
  | asked saved i items =>
    obtain ⟨hflag, rfl⟩ := h
    have hoff : g.mask (g.ask own) c.flag = false := hflag ▸ g.mask_ask own
    exact ⟨⟨hoff, rfl⟩, fun _ => hoff⟩
  | waiting saved i items =>
    cases hi : c.lock i <;> simpa [Phase.step, hi, Masks] using h
  | locked saved i items =>
    cases items with
    | nil => exact h.1
    | cons x items => exact h
  | released saved =>
    cases saved with
    | none => exact h
    | some saved =>
      obtain ⟨hflag, rfl⟩ := h
      change g.leave (g.ask own) c.flag = own
      rw [hflag, g.leave_ask]

omit [DecidableEq ι] in
lemma Kept.of_on {saved : Option σ} (h : Kept g true own saved) : saved = none ∧ own = true := by
  cases saved with
  | none => exact ⟨rfl, Eq.symm h⟩
  | some saved => exact nomatch h.1

omit [DecidableEq ι] in
lemma Masks.interrupt (h : Masks g shared true own p) :
    Interrupted g shared p ∧ own = true := by
  cases p with
  | idle => exact ⟨trivial, Eq.symm h⟩
  | asked saved i items =>
    obtain ⟨rfl, rfl⟩ := h
    exact ⟨rfl, rfl⟩
  | waiting saved i items | locked saved i items =>
    obtain ⟨hkept, hshared⟩ := h
    obtain ⟨hnone, hown⟩ := hkept.of_on
    exact ⟨⟨hnone, fun hi => nomatch hshared hi⟩, hown⟩
  | released saved => exact Kept.of_on h

omit [DecidableEq ι] in
lemma Interrupted.resume (h : Interrupted g shared p) : Masks g shared true true p := by
  cases p with
  | idle => rfl
  | asked saved i items => exact ⟨rfl, h⟩
  | waiting saved i items | locked saved i items =>
    obtain ⟨rfl, hi⟩ := h
    exact ⟨rfl, fun hi' => absurd hi' hi⟩
  | released saved =>
    obtain rfl := h
    rfl

omit [DecidableEq ι] in
lemma Handles.begin {j : Job ι α} (hj : j.ForHandler shared) (hflag : c.flag = false) :
    (j.begin g c).1.flag = false ∧ Handles g shared (j.begin g c).2 := by
  cases j with
  | guarded i items => exact ⟨hflag, congrArg g.ask hflag, hj⟩
  | bare i items => exact ⟨hflag, rfl, hj⟩
  | setFlag b => exact hj.elim

lemma Handles.step (h : Handles g shared p) (hflag : c.flag = false) :
    (p.step g c).1.flag = false ∧ Handles g shared (p.step g c).2 := by
  cases p with
  | idle => exact ⟨hflag, h⟩
  | asked saved i items =>
    obtain ⟨rfl, hi⟩ := h
    refine ⟨?_, ⟨rfl, rfl⟩, hi⟩
    change g.mask (g.ask false) c.flag = false
    rw [hflag, g.mask_ask]
  | waiting saved i items =>
    cases hi : c.lock i <;> simpa [Phase.step, hi, hflag, Handles] using h
  | locked saved i items =>
    cases items with
    | nil => exact ⟨hflag, h.1⟩
    | cons x items => exact ⟨hflag, h⟩
  | released saved =>
    cases saved with
    | none => exact ⟨hflag, trivial⟩
    | some saved =>
      obtain ⟨-, rfl⟩ := h
      refine ⟨?_, trivial⟩
      change g.leave (g.ask false) c.flag = false
      rw [hflag, g.leave_ask]

/-! ### Whole runs -/

/-- The discipline holds, whoever runs. -/
def Sound (g : Guard σ) (shared : ι → Prop) (s : Sys σ ι α) : Prop :=
  match s.handler with
  | none => Owns s.core .idle s.main ∧ Masks g shared s.core.flag s.own s.main
  | some (p, js) => Owns s.core s.main p ∧ s.core.flag = false ∧ Handles g shared p ∧
      Interrupted g shared s.main ∧ s.own = true ∧ ∀ j ∈ js, j.ForHandler shared

variable {s s' : Sys σ ι α} {e : Event ι α}

lemma sound_initial : Sound g shared (Sys.initial σ ι α) :=
  ⟨fun _ => ⟨rfl, rfl⟩, rfl⟩

lemma Sound.begin {j : Job ι α} (h : Sound g shared s) (hok : Disciplined shared s (.begin j))
    (hs : s.begin g j = some s') : Sound g shared s' := by
  unfold Sys.begin at hs
  split at hs
  · rename_i hh hm
    obtain rfl := Option.some_inj.mp hs
    simp only [Sound, hh, hm] at h ⊢
    refine ⟨h.1.begin j, h.2.begin fun i items hj => ?_⟩
    subst hj
    exact hok
  · cases hs

lemma Sound.step (h : Sound g shared s) : Sound g shared (s.step g) := by
  unfold Sys.step
  split
  · rename_i hh
    simp only [Sound, hh] at h ⊢
    exact ⟨h.1.step, h.2.step⟩
  · -- the end of the handler
    rename_i hh
    simp only [Sound, hh] at h ⊢
    obtain ⟨howns, -, -, hint, hown, -⟩ := h
    refine ⟨howns.idle_swap, ?_⟩
    rw [hown]
    exact hint.resume
  · rename_i j js hh
    simp only [Sound, hh] at h ⊢
    obtain ⟨howns, hflag, -, hint, hown, hjs⟩ := h
    obtain ⟨hj, hjs⟩ := List.forall_mem_cons.mp hjs
    obtain ⟨hflag', hhandles⟩ := Handles.begin hj hflag
    exact ⟨howns.begin j, hflag', hhandles, hint, hown, hjs⟩
  · rename_i p js hh
    simp only [Sound, hh] at h ⊢
    obtain ⟨howns, hflag, hhandles, hint, hown, hjs⟩ := h
    obtain ⟨hflag', hhandles'⟩ := hhandles.step hflag
    exact ⟨howns.step, hflag', hhandles', hint, hown, hjs⟩

lemma Sound.interrupt {js : List (Job ι α)} (h : Sound g shared s)
    (hok : ∀ j ∈ js, j.ForHandler shared) (hs : s.interrupt js = some s') : Sound g shared s' := by
  unfold Sys.interrupt at hs
  split at hs
  · rename_i hh
    split_ifs at hs with hflag
    obtain rfl := Option.some_inj.mp hs
    simp only [Sound, hh, hflag] at h ⊢
    obtain ⟨hint, hown⟩ := h.2.interrupt
    exact ⟨h.1.swap_idle, trivial, trivial, hint, hown, hok⟩
  · cases hs

lemma Sound.next (h : Sound g shared s) (hok : Disciplined shared s e) (hs : s.next g e = some s') :
    Sound g shared s' := by
  cases e with
  | begin j => exact h.begin hok hs
  | step => exact Option.some_inj.mp hs ▸ h.step
  | interrupt js => exact h.interrupt hok hs

/-- Who runs waits for a lock that is taken. -/
def Sys.Waits (s : Sys σ ι α) : Prop :=
  ∃ saved i items, s.core.lock i = true ∧
    ((s.handler = none ∧ s.main = .waiting saved i items) ∨
      ∃ js, s.handler = some (.waiting saved i items, js))

/-- **No one waits.** -/
theorem Sound.not_waits (h : Sound g shared s) : ¬ s.Waits := by
  rintro ⟨saved, i, items, hlock, ⟨hh, hm⟩ | ⟨js, hh⟩⟩
  · simp only [Sound, hh, hm] at h
    have := (h.1 i).1
    simp [hlock] at this
  · -- the lock would be held by the main program, but it is shared
    simp only [Sound, hh] at h
    obtain ⟨howns, -, hhandles, hint, -, -⟩ := h
    have hheld := (howns i).1
    rw [hlock] at hheld
    cases hm : s.main with
    | locked saved' j items' =>
      rw [hm] at hheld hint
      have hj : j = i := by
        by_contra hne
        simp [hne] at hheld
      exact hint.2 (hj ▸ hhandles.2)
    | _ => simp [hm, Phase.holds] at hheld

/-! ### What was begun -/

section logged

variable (P : ι → List α → Prop)

def Job.All : Job ι α → Prop
  | .guarded i items | .bare i items => P i items
  | .setFlag _ => True

/-- As long as the lock is not taken, the list is whole. -/
def Phase.All : Phase σ ι α → Prop
  | .asked _ i items | .waiting _ i items => P i items
  | .idle | .locked _ _ _ | .released _ => True

/-- What was begun meets the condition. -/
structure Logged (s : Sys σ ι α) : Prop where
  log : ∀ i, ∀ l ∈ s.core.log i, P i l
  main : s.main.All P
  handler : ∀ p js, s.handler = some (p, js) → p.All P ∧ ∀ j ∈ js, j.All P

/-- Every job that is begun meets the condition. -/
def AllMeet (_ : Sys σ ι α) : Event ι α → Prop
  | .begin j => j.All P
  | .step => True
  | .interrupt js => ∀ j ∈ js, j.All P

variable {P}

omit [DecidableEq ι] in
lemma Job.All.begin {j : Job ι α} (h : j.All P) :
    (j.begin g c).1.log = c.log ∧ (j.begin g c).2.All P := by
  cases j
  exacts [⟨rfl, h⟩, ⟨rfl, h⟩, ⟨rfl, trivial⟩]

lemma Phase.All.step (h : p.All P) (hlog : ∀ i, ∀ l ∈ c.log i, P i l) :
    (∀ i, ∀ l ∈ (p.step g c).1.log i, P i l) ∧ (p.step g c).2.All P := by
  cases p with
  | waiting saved i items =>
    cases hi : c.lock i with
    | true => simpa [Phase.step, hi] using ⟨hlog, h⟩
    | false =>
      simp only [Phase.step, hi, Bool.false_eq_true, if_false]
      refine ⟨fun j l hl => ?_, trivial⟩
      by_cases hij : j = i
      · subst hij
        rw [Function.update_self, List.mem_append, List.mem_singleton] at hl
        rcases hl with hl | rfl
        exacts [hlog j l hl, h]
      · rw [Function.update_of_ne hij] at hl
        exact hlog j l hl
  | locked saved i items => cases items <;> exact ⟨hlog, trivial⟩
  | _ => exact ⟨hlog, h⟩

lemma Logged.next (h : Logged P s) (hok : AllMeet P s e) (hs : s.next g e = some s') :
    Logged P s' := by
  cases e with
  | begin j =>
    simp only [Sys.next, Sys.begin] at hs
    split at hs
    · rename_i hh hm
      obtain rfl := Option.some_inj.mp hs
      obtain ⟨hlog, hp⟩ := Job.All.begin (c := s.core) hok
      exact ⟨by rw [hlog]; exact h.log, hp, fun p js hp => nomatch hh.symm.trans hp⟩
    · cases hs
  | step =>
    obtain rfl := Option.some_inj.mp hs
    unfold Sys.step
    split
    · rename_i hh
      obtain ⟨hlog, hp⟩ := h.main.step h.log
      exact ⟨hlog, hp, fun p js hp => nomatch hh.symm.trans hp⟩
    · exact ⟨h.log, h.main, fun p js hp => nomatch hp⟩
    · rename_i j js hh
      obtain ⟨-, hjs⟩ := h.handler _ _ hh
      obtain ⟨hj, hjs⟩ := List.forall_mem_cons.mp hjs
      obtain ⟨hlog, hp⟩ := hj.begin (c := s.core)
      refine ⟨by rw [hlog]; exact h.log, h.main, fun p js' hp' => ?_⟩
      obtain ⟨rfl, rfl⟩ := Prod.mk.inj (Option.some_inj.mp hp')
      exact ⟨hp, hjs⟩
    · rename_i p js _ _ hh
      obtain ⟨hp, hjs⟩ := h.handler _ _ hh
      obtain ⟨hlog, hp⟩ := hp.step h.log
      refine ⟨hlog, h.main, fun p' js' hp' => ?_⟩
      obtain ⟨rfl, rfl⟩ := Prod.mk.inj (Option.some_inj.mp hp')
      exact ⟨hp, hjs⟩
  | interrupt js =>
    simp only [Sys.next, Sys.interrupt] at hs
    split at hs
    · split_ifs at hs
      obtain rfl := Option.some_inj.mp hs
      refine ⟨h.log, h.main, fun p js' hp => ?_⟩
      obtain ⟨rfl, rfl⟩ := Prod.mk.inj (Option.some_inj.mp hp)
      exact ⟨trivial, hok⟩
    · cases hs

omit [DecidableEq ι] in
lemma logged_initial : Logged P (Sys.initial σ ι α) :=
  ⟨fun _ _ h => (nomatch h), trivial, fun _ _ h => (nomatch h)⟩

end logged

/-! ### Handlers return -/

def Phase.work : Phase σ ι α → ℕ
  | .idle => 0
  | .asked _ _ items => items.length + 4
  | .waiting _ _ items => items.length + 3
  | .locked _ _ items => items.length + 2
  | .released _ => 1

def Job.work : Job ι α → ℕ
  | .guarded _ items => items.length + 5
  | .bare _ items => items.length + 4
  | .setFlag _ => 1

/-- The steps the handler has before it. -/
def Sys.work (s : Sys σ ι α) : ℕ :=
  match s.handler with
  | none => 0
  | some (p, js) => p.work + (js.map Job.work).sum + 1

omit [DecidableEq ι] in
lemma Job.work_begin (j : Job ι α) : (j.begin g c).2.work + 1 = j.work := by
  cases j <;> rfl

lemma Phase.work_step (hne : p ≠ .idle)
    (hfree : ∀ saved i items, p = .waiting saved i items → c.lock i = false) :
    (p.step g c).2.work + 1 = p.work := by
  cases p with
  | idle => exact absurd rfl hne
  | asked saved i items => rfl
  | waiting saved i items => simp [Phase.step, hfree saved i items rfl, Phase.work]
  | locked saved i items =>
    cases items with
    | nil => rfl
    | cons x items => simp [Phase.step, Phase.work]
  | released saved => rfl

lemma Sound.work_step (h : Sound g shared s) (hh : s.handler ≠ none) :
    (s.step g).work + 1 = s.work ∧ (s.step g).main = s.main := by
  have hfree : ∀ saved i items js, s.handler = some (.waiting saved i items, js) →
      s.core.lock i = false := by
    intro saved i items js hw
    by_contra hlock
    exact h.not_waits ⟨saved, i, items, by simpa using hlock, .inr ⟨js, hw⟩⟩
  unfold Sys.step
  split
  · rename_i hnone
    exact absurd hnone hh
  · rename_i hs
    simp [Sys.work, hs, Phase.work]
  · rename_i j js hs
    refine ⟨?_, rfl⟩
    have := j.work_begin (g := g) (c := s.core)
    have hidle : (Phase.idle : Phase σ ι α).work = 0 := rfl
    simp only [Sys.work, hs, List.map_cons, List.sum_cons, hidle]
    omega
  · rename_i p js hnil hcons hs
    refine ⟨?_, rfl⟩
    have hne : p ≠ .idle := by
      rintro rfl
      cases js with
      | nil => exact hnil rfl rfl
      | cons j js => exact hcons j js rfl rfl
    have := Phase.work_step (g := g) (c := s.core) hne fun saved i items hp =>
      hfree saved i items js (hp ▸ hs)
    simp only [Sys.work, hs]
    omega

/-- **Handlers return**, after just as many steps as they have before them. -/
theorem Sound.returns (h : Sound g shared s) :
    ((Sys.step g)^[s.work] s).handler = none ∧ ((Sys.step g)^[s.work] s).main = s.main ∧
      Sound g shared ((Sys.step g)^[s.work] s) := by
  induction hn : s.work generalizing s with
  | zero =>
    refine ⟨?_, rfl, h⟩
    unfold Sys.work at hn
    split at hn
    · assumption
    · omega
  | succ n ih =>
    have hh : s.handler ≠ none := by
      intro hnone
      rw [Sys.work, hnone] at hn
      cases hn
    obtain ⟨hwork, hmain⟩ := h.work_step hh
    obtain ⟨hret, hmain', hsound⟩ := ih h.step (by omega)
    exact ⟨hret, hmain'.trans hmain, hsound⟩

lemma eq_step_of_handler (hh : s.handler ≠ none) (hs : s.next g e = some s') : e = .step := by
  obtain ⟨q, hq⟩ := Option.ne_none_iff_exists'.mp hh
  cases e with
  | begin j => simp [Sys.next, Sys.begin, hq] at hs
  | step => rfl
  | interrupt js => simp [Sys.next, Sys.interrupt, hq] at hs

/-! ### A job of a handler -/

/-- Only the one who runs goes on. -/
def Alone (g : Guard σ) (s t : Sys σ ι α) : Prop := Reach (Sys.next g) (fun _ e => e = .step) s t

lemma Alone.step {t : Sys σ ι α} (h : Alone g s t) : Alone g s (t.step g) := Reach.step h rfl rfl

lemma step_begin {j : Job ι α} {js : List (Job ι α)} (hh : s.handler = some (.idle, j :: js)) :
    s.step g =
      { s with core := (j.begin g s.core).1, handler := some ((j.begin g s.core).2, js) } := by
  unfold Sys.step
  rw [hh]

lemma step_phase {js : List (Job ι α)} (hh : s.handler = some (p, js)) (hp : p ≠ .idle) :
    s.step g =
      { s with core := (p.step g s.core).1, handler := some ((p.step g s.core).2, js) } := by
  unfold Sys.step
  rw [hh]
  cases p with
  | idle => exact absurd rfl hp
  | _ => rfl

section job

variable {saved : Option σ} {items : List α} {js : List (Job ι α)}

/-- What a job of the handler leaves as it was. -/
structure Same (s t : Sys σ ι α) : Prop where
  main : t.main = s.main
  lock : t.core.lock = s.core.lock
  flag : t.core.flag = s.core.flag

omit [DecidableEq ι] in
lemma Same.trans {t u : Sys σ ι α} (h : Same s t) (h' : Same t u) : Same s u :=
  ⟨h'.main.trans h.main, h'.lock.trans h.lock, h'.flag.trans h.flag⟩

lemma run_items (g : Guard σ) (hh : s.handler = some (.locked saved i items, js)) :
    ∃ t, Alone g s t ∧ t.handler = some (.locked saved i [], js) ∧ Same s t := by
  induction items generalizing s with
  | nil => exact ⟨s, .start, hh, rfl, rfl, rfl⟩
  | cons x items ih =>
    have hstep := step_phase (g := g) hh nofun
    have hsame : Same s (s.step g) := by
      rw [hstep]
      exact ⟨rfl, rfl, rfl⟩
    obtain ⟨t, ht, hht, hst⟩ := ih (s := s.step g) (by rw [hstep]; rfl)
    exact ⟨t, Reach.trans (Alone.step .start) ht, hht, hsame.trans hst⟩

lemma run_guarded (g : Guard σ) (hh : s.handler = some (.idle, .guarded i items :: js))
    (hflag : s.core.flag = false) (hi : s.core.lock i = false) :
    ∃ t, Alone g s t ∧ t.handler = some (.idle, js) ∧ Same s t := by
  -- up to the lock
  obtain ⟨t, ht, hht, hcore, hmain⟩ : ∃ t, Alone g s t ∧
      t.handler = some (.waiting (some (g.ask false)) i items, js) ∧ t.core = s.core ∧
        t.main = s.main := by
    have h₁ := step_begin (g := g) hh
    have hh₁ : (s.step g).handler = some (.asked (g.ask false) i items, js) := by
      rw [h₁, ← hflag]
      rfl
    have h₂ := step_phase (g := g) hh₁ nofun
    refine ⟨(s.step g).step g, Alone.step (Alone.step .start), by rw [h₂]; rfl, ?_, ?_⟩
    · have hmask : g.mask (g.ask false) s.core.flag = s.core.flag := by rw [hflag, g.mask_ask]
      rw [h₂, h₁]
      simp only [Phase.step, Job.begin, hmask]
    · rw [h₂, h₁]
  -- under the lock
  have h₃ := step_phase (g := g) hht nofun
  rw [hcore] at h₃
  simp only [Phase.step, hi, Bool.false_eq_true, if_false] at h₃
  obtain ⟨u, hu, hhu, hsame⟩ := run_items g (s := t.step g) (by rw [h₃])
  have h₅ := step_phase (g := g) hhu nofun
  have hh₅ : (u.step g).handler = some (.released (some (g.ask false)), js) := by
    rw [h₅]
    rfl
  have h₆ := step_phase (g := g) hh₅ nofun
  have hflag' : u.core.flag = false := by rw [hsame.flag, h₃, hflag]
  have halone : Alone g s u := Reach.trans ht.step hu
  refine ⟨(u.step g).step g, halone.step.step, by rw [h₆]; rfl, ?_, ?_, ?_⟩
  · rw [h₆, h₅]
    simp only [hsame.main]
    rw [h₃, hmain]
  · rw [h₆, h₅]
    simp only [Phase.step, hsame.lock]
    rw [h₃]
    simp [hi]
  · rw [h₆, h₅]
    simp only [Phase.step, Option.elim_some, hflag', g.leave_ask, hflag]

end job

/-! ### Without the discipline -/

/-- A handler that waits for a lock the main program holds. -/
structure Stuck (s : Sys σ ι α) (i : ι) : Prop where
  held : ∃ saved items, s.main = .locked saved i items
  waits : ∃ saved items js, s.handler = some (.waiting saved i items, js)
  lock : s.core.lock i = true

/-- **It waits for ever**: the only event is the handler's next attempt, and it changes
nothing. -/
theorem Stuck.forever (h : Stuck s i) {ok : Sys σ ι α → Event ι α → Prop}
    (hr : Reach (Sys.next g) ok s s') : s' = s := by
  refine hr.inv (I := fun t => t = s) rfl fun t e t' ht _ hs => ?_
  subst ht
  obtain ⟨saved, items, js, hh⟩ := h.waits
  obtain rfl := eq_step_of_handler (by rw [hh]; exact Option.some_ne_none _) hs
  obtain rfl := Option.some_inj.mp hs
  obtain ⟨⟨f, l, d, g⟩, m, k, w⟩ := t
  have hl : l i = true := h.lock
  obtain rfl : k = _ := hh
  simp [Sys.step, Phase.step, hl]

end RustyOs.Masking
