import Mathlib

/-!
Chains in a table of links.

A table says of every node which node comes next, if any. Following it from a node either
ends, and then the nodes passed are distinct, or never does. A table in which no node is
pointed at twice and nothing points back to itself falls apart into separate chains, and a
node that is not in use yet can be put behind any node in use: the chain through that node
grows by one and the others stay what they were.
-/

namespace RustyOs.Links

variable {κ : Type}

/-- Following `next` from `c` visits the nodes of `l`, in order, and then ends. -/
inductive Path (next : κ → Option κ) : κ → List κ → Prop
  | last {c : κ} (h : next c = none) : Path next c [c]
  | cons {c c' : κ} {l : List κ} (h : next c = some c') (t : Path next c' l) :
      Path next c (c :: l)

variable {next next' : κ → Option κ} {c : κ} {l : List κ}

lemma Path.eq_cons (h : Path next c l) : ∃ t, l = c :: t := by
  cases h with
  | last => exact ⟨[], rfl⟩
  | cons => exact ⟨_, rfl⟩

lemma Path.mem_self (h : Path next c l) : c ∈ l := by
  obtain ⟨t, rfl⟩ := h.eq_cons; simp

lemma Path.unique {l' : List κ} (h : Path next c l) (h' : Path next c l') : l = l' := by
  induction h generalizing l' with
  | last hn =>
    cases h' with
    | last => rfl
    | cons hn' => rw [hn] at hn'; cases hn'
  | cons hn _ ih =>
    cases h' with
    | last hn' => rw [hn] at hn'; cases hn'
    | cons hn' t =>
      rw [hn] at hn'; cases hn'
      rw [ih t]

lemma Path.congr (h : Path next c l) (hl : ∀ x ∈ l, next' x = next x) : Path next' c l := by
  induction h with
  | last hn => exact .last (by rw [hl _ (by simp), hn])
  | cons hn _ ih =>
    exact .cons (by rw [hl _ (by simp), hn]) (ih fun x hx => hl x (by simp [hx]))

lemma Path.of_mem (h : Path next c l) {x : κ} (hx : x ∈ l) :
    ∃ l', Path next x l' ∧ l'.length ≤ l.length := by
  induction h with
  | last hn =>
    rw [List.mem_singleton.mp hx]
    exact ⟨_, .last hn, le_rfl⟩
  | cons hn t ih =>
    rcases List.mem_cons.mp hx with rfl | hx'
    · exact ⟨_, .cons hn t, le_rfl⟩
    · obtain ⟨l', h', hle⟩ := ih hx'
      exact ⟨l', h', hle.trans (Nat.le_succ _)⟩

/-- A walk that ends passes no node twice: from its second visit on it would go on as from the
first. -/
lemma Path.nodup (h : Path next c l) : l.Nodup := by
  induction h with
  | last => exact List.nodup_singleton _
  | cons hn t ih =>
    refine List.nodup_cons.mpr ⟨fun hmem => ?_, ih⟩
    obtain ⟨l', h', hle⟩ := t.of_mem hmem
    rw [← (Path.cons hn t).unique h', List.length_cons] at hle
    omega

lemma Path.next_mem (h : Path next c l) {x y : κ} (hx : x ∈ l) (hy : next x = some y) :
    y ∈ l := by
  induction h with
  | last hn =>
    rw [List.mem_singleton.mp hx, hn] at hy; cases hy
  | cons hn t ih =>
    rcases List.mem_cons.mp hx with rfl | hx'
    · rw [hn] at hy; cases hy
      exact List.mem_cons_of_mem _ t.mem_self
    · exact List.mem_cons_of_mem _ (ih hx')

/-! ### Walking with a limit -/

/-- The nodes passed from `c` to the end, unless there are more than `n`. -/
def walk (next : κ → Option κ) : ℕ → κ → Option (List κ)
  | 0, _ => none
  | n + 1, c =>
    match next c with
    | none => some [c]
    | some c' => (walk next n c').map (c :: ·)

lemma walk_eq_some {n : ℕ} : walk next n c = some l ↔ Path next c l ∧ l.length ≤ n := by
  induction n generalizing c l with
  | zero =>
    simp only [walk, reduceCtorEq, false_iff, not_and, Nat.le_zero]
    intro h h0
    obtain ⟨t, rfl⟩ := h.eq_cons
    simp at h0
  | succ n ih =>
    rcases hn : next c with _ | c'
    · simp only [walk, hn, Option.some_inj]
      constructor
      · rintro rfl; exact ⟨.last hn, by simp⟩
      · rintro ⟨h, -⟩; exact (Path.last hn).unique h
    · simp only [walk, hn, Option.map_eq_some_iff, ih]
      constructor
      · rintro ⟨t, ⟨ht, hle⟩, rfl⟩
        exact ⟨.cons hn ht, by simp only [List.length_cons]; omega⟩
      · rintro ⟨h, hle⟩
        cases h with
        | last h' => rw [hn] at h'; cases h'
        | cons h' t =>
          rw [hn] at h'; cases h'
          exact ⟨_, ⟨t, by simp only [List.length_cons] at hle; omega⟩, rfl⟩

/-- The nodes passed from `c` in at most `n` steps. -/
def visited (next : κ → Option κ) : ℕ → κ → List κ
  | 0, _ => []
  | n + 1, c => c :: (next c).elim [] (visited next n)

lemma map_walk_ne (n : ℕ) (c c' : κ) : (walk next n c').map (c :: ·) ≠ some [c] := by
  intro h
  obtain ⟨l, hl, he⟩ := Option.map_eq_some_iff.mp h
  obtain ⟨t, rfl⟩ := (walk_eq_some.mp hl).1.eq_cons
  cases (List.cons.inj he).2

/-- Links that agree wherever both go on give the same walk exactly when they end at the same of
the nodes passed. -/
theorem walk_congr_iff (hagree : ∀ x y y', next x = some y → next' x = some y' → y = y') (n : ℕ)
    (c : κ) : walk next n c = walk next' n c ↔
      ∀ x ∈ visited next n c, (next x = none ↔ next' x = none) := by
  induction n generalizing c with
  | zero => simp [walk, visited]
  | succ n ih =>
    rcases hn : next c with _ | y <;> rcases hn' : next' c with _ | y'
    · simp [walk, visited, hn, hn']
    · simp [walk, visited, hn, hn', (map_walk_ne n c y').symm]
    · simp [walk, visited, hn, hn', map_walk_ne n c y]
    · obtain rfl := hagree c y y' hn hn'
      have hinj : Function.Injective (List.cons c) := fun _ _ h => (List.cons.inj h).2
      simp only [walk, visited, hn, hn', Option.elim_some, List.forall_mem_cons, reduceCtorEq,
        true_and, ← ih]
      exact (Option.map_injective hinj).eq_iff

/-! ### Going on until a mark -/

/-- The link to `f x`, unless that is a mark. -/
def nextUntil (f : κ → κ) (stop : κ → Prop) [DecidablePred stop] (x : κ) : Option κ :=
  if stop (f x) then none else some (f x)

/-- The path consists of the iterates of `f` in front of the first that is a mark. -/
theorem path_nextUntil_iff {f : κ → κ} {stop : κ → Prop} [DecidablePred stop] :
    Path (nextUntil f stop) c l ↔ ∃ n, 1 ≤ n ∧ stop (f^[n] c) ∧
      (∀ i, 1 ≤ i → i < n → ¬ stop (f^[i] c)) ∧ l = (List.range n).map fun i => f^[i] c := by
  constructor
  · intro h
    induction h with
    | @last c hn =>
      unfold nextUntil at hn
      split_ifs at hn with hstop
      exact ⟨1, le_refl _, hstop, fun i h1 h2 => by omega, rfl⟩
    | @cons c c' l hn t ih =>
      unfold nextUntil at hn
      split_ifs at hn with hstop
      obtain rfl := Option.some.inj hn
      obtain ⟨n, h1, hn, hlt, rfl⟩ := ih
      refine ⟨n + 1, by omega, hn, fun i hi hin => ?_, ?_⟩
      · obtain ⟨j, rfl⟩ := Nat.exists_eq_add_of_le' hi
        rw [Function.iterate_succ_apply]
        rcases Nat.eq_zero_or_pos j with rfl | hj
        · exact hstop
        · exact hlt j hj (by omega)
      · rw [List.range_succ_eq_map, List.map_cons, List.map_map]
        rfl
  · rintro ⟨n, h1, hn, hlt, rfl⟩
    induction n generalizing c with
    | zero => omega
    | succ n ih =>
      rw [List.range_succ_eq_map, List.map_cons, List.map_map]
      rcases Nat.eq_zero_or_pos n with rfl | hpos
      · exact .last (if_pos hn)
      · have hgo : nextUntil f stop c = some (f c) := if_neg (hlt 1 (le_refl _) (by omega))
        refine .cons hgo (ih hpos hn fun i hi hin => ?_)
        rw [← Function.iterate_succ_apply]
        exact hlt (i + 1) (by omega) (by omega)

/-! ### Tables that fall apart into chains -/

/-- A link out of a node in use. -/
def Link (used : κ → Prop) (next : κ → Option κ) (a b : κ) : Prop := used a ∧ next a = some b

/-- Links lead to nodes in use, no two of them to the same one, and never in a circle. -/
structure WellLinked (used : κ → Prop) (next : κ → Option κ) : Prop where
  closed : ∀ a b, used a → next a = some b → used b
  inj : ∀ a b x, used a → used b → next a = some x → next b = some x → a = b
  acyclic : ∀ a, ¬ Relation.TransGen (Link used next) a a

/-- The nodes of a whole chain: nothing in use links to the first. -/
def IsChain (used : κ → Prop) (next : κ → Option κ) (l : List κ) : Prop :=
  ∃ h, used h ∧ Path next h l ∧ ∀ a, used a → next a ≠ some h

lemma Path.used {used : κ → Prop} (hw : WellLinked used next) (h : Path next c l)
    (hc : used c) : ∀ x ∈ l, used x := by
  induction h with
  | last => intro x hx; rwa [List.mem_singleton.mp hx]
  | cons hn t ih =>
    intro x hx
    rcases List.mem_cons.mp hx with rfl | hx'
    · exact hc
    · exact ih (hw.closed _ _ hc hn) x hx'

section finite

variable [Finite κ] {used : κ → Prop}

lemma WellLinked.wellFounded (hw : WellLinked used next) :
    WellFounded (Relation.TransGen (Link used next)) ∧
      WellFounded (Function.swap (Relation.TransGen (Link used next))) := by
  have : Std.Irrefl (Relation.TransGen (Link used next)) := ⟨hw.acyclic⟩
  exact ⟨Finite.wellFounded_of_trans_of_irrefl _, Finite.wellFounded_of_trans_of_irrefl _⟩

lemma WellLinked.exists_path (hw : WellLinked used next) (hc : used c) : ∃ l, Path next c l := by
  induction c using hw.wellFounded.2.induction with
  | _ c ih =>
    rcases hn : next c with _ | c'
    · exact ⟨[c], .last hn⟩
    · obtain ⟨l, hl⟩ := ih c' (.single ⟨hc, hn⟩) (hw.closed _ _ hc hn)
      exact ⟨c :: l, .cons hn hl⟩

/-- Among finitely many nodes, every node in use lies on a chain. -/
theorem WellLinked.exists_chain (hw : WellLinked used next) (hc : used c) :
    ∃ l, IsChain used next l ∧ c ∈ l := by
  induction c using hw.wellFounded.1.induction with
  | _ c ih =>
    by_cases h : ∃ a, used a ∧ next a = some c
    · obtain ⟨a, ha, hac⟩ := h
      obtain ⟨l, hl, hmem⟩ := ih a (.single ⟨ha, hac⟩) ha
      obtain ⟨b, -, hp, -⟩ := id hl
      exact ⟨l, hl, hp.next_mem hmem hac⟩
    · obtain ⟨l, hl⟩ := hw.exists_path hc
      exact ⟨l, ⟨c, hc, hl, fun a ha hac => h ⟨a, ha, hac⟩⟩, hl.mem_self⟩

end finite

section congr

variable {used : κ → Prop}

lemma WellLinked.congr (hw : WellLinked used next) (h : ∀ x, used x → next' x = next x) :
    WellLinked used next' := by
  refine ⟨fun a b ha hab => ?_, fun a b x ha hb hax hbx => ?_, fun a hcyc => ?_⟩
  · exact hw.closed a b ha (by rw [← h a ha, hab])
  · exact hw.inj a b x ha hb (by rw [← h a ha, hax]) (by rw [← h b hb, hbx])
  · refine hw.acyclic a (Relation.TransGen.mono ?_ a a hcyc)
    rintro x y ⟨hx, hxy⟩
    exact ⟨hx, by rw [← h x hx, hxy]⟩

lemma IsChain.congr (hw : WellLinked used next) (h : ∀ x, used x → next' x = next x)
    (hl : IsChain used next l) : IsChain used next' l := by
  obtain ⟨a, ha, hp, hfirst⟩ := hl
  refine ⟨a, ha, hp.congr fun x hx => h x (hp.used hw ha x hx), fun b hb => ?_⟩
  rw [h b hb]
  exact hfirst b hb

lemma isChain_congr (hw : WellLinked used next) (h : ∀ x, used x → next' x = next x) :
    IsChain used next' l ↔ IsChain used next l :=
  ⟨.congr (hw.congr h) fun x hx => (h x hx).symm, .congr hw h⟩

end congr

variable [DecidableEq κ]

/-- The list with `c` put right behind `p`. -/
def insertAfter (p c : κ) (l : List κ) : List κ := l.flatMap fun x => if x = p then [x, c] else [x]

lemma insertAfter_cons (p c x : κ) (l : List κ) :
    insertAfter p c (x :: l) = (if x = p then [x, c] else [x]) ++ insertAfter p c l := rfl

lemma insertAfter_of_notMem {p c : κ} {l : List κ} (h : p ∉ l) : insertAfter p c l = l := by
  induction l with
  | nil => rfl
  | cons x l ih =>
    simp only [List.mem_cons, not_or] at h
    rw [insertAfter_cons, if_neg (Ne.symm h.1), ih h.2, List.singleton_append]

/-- The table with `c` put behind `p`: `p` leads to `c`, and `c` to where `p` led. -/
def spliceNext (next : κ → Option κ) (p c : κ) : κ → Option κ :=
  Function.update (Function.update next p (some c)) c (next p)

section splice

variable {used : κ → Prop} {p c : κ}

lemma spliceNext_new : spliceNext next p c c = next p := by simp [spliceNext]

lemma spliceNext_prev (h : p ≠ c) : spliceNext next p c p = some c := by
  simp [spliceNext, h]

lemma spliceNext_other {x : κ} (hp : x ≠ p) (hc : x ≠ c) : spliceNext next p c x = next x := by
  simp [spliceNext, hp, hc]

lemma splice_link (hw : WellLinked used next) (hp : used p) (hc : ¬ used c) {a b : κ}
    (h : Link (fun x => used x ∨ x = c) (spliceNext next p c) a b) :
    (a = p ∧ b = c) ∨
      Link used next (if a = c then p else a) (if b = c then p else b) := by
  have hpc : p ≠ c := fun h => hc (h ▸ hp)
  obtain ⟨ha, hab⟩ := h
  by_cases hac : a = c
  · subst hac
    rw [spliceNext_new] at hab
    have hb : b ≠ a := fun h => hc (h ▸ hw.closed _ _ hp hab)
    exact .inr (by simpa [hb] using ⟨hp, hab⟩)
  · have hua : used a := ha.resolve_right hac
    by_cases hap : a = p
    · subst hap
      rw [spliceNext_prev hpc, Option.some_inj] at hab
      exact .inl ⟨rfl, hab.symm⟩
    · rw [spliceNext_other hap hac] at hab
      have hb : b ≠ c := fun h => hc (h ▸ hw.closed _ _ hua hab)
      exact .inr (by simpa [hac, hb] using ⟨hua, hab⟩)

lemma splice_transGen (hw : WellLinked used next) (hp : used p) (hc : ¬ used c) {a b : κ}
    (h : Relation.TransGen (Link (fun x => used x ∨ x = c) (spliceNext next p c)) a b) :
    (a = p ∧ b = c) ∨ Relation.TransGen (Link used next)
      (if a = c then p else a) (if b = c then p else b) := by
  have hpc : p ≠ c := fun h => hc (h ▸ hp)
  induction h with
  | single h =>
    exact (splice_link hw hp hc h).imp_right .single
  | tail _ hbz ih =>
    rcases splice_link hw hp hc hbz with ⟨rfl, rfl⟩ | hl
    · -- the step from `p` to `c` does not move
      rcases ih with ⟨-, h⟩ | h
      · exact absurd h hpc
      · rw [if_neg hpc] at h
        exact .inr (by simpa using h)
    · rcases ih with ⟨rfl, rfl⟩ | h
      · rw [if_pos rfl] at hl
        exact .inr (by rw [if_neg hpc]; exact .single hl)
      · exact .inr (h.tail hl)

/-- **Putting an unused node behind a used one keeps a table well linked.** -/
theorem WellLinked.splice (hw : WellLinked used next) (hp : used p) (hc : ¬ used c) :
    WellLinked (fun x => used x ∨ x = c) (spliceNext next p c) := by
  have hpc : p ≠ c := fun h => hc (h ▸ hp)
  -- what the new table links, by where the link starts
  have hnext : ∀ a b, (used a ∨ a = c) → spliceNext next p c a = some b →
      (a = c ∧ next p = some b) ∨ (a = p ∧ b = c) ∨ (used a ∧ a ≠ p ∧ next a = some b) := by
    intro a b ha hab
    by_cases hac : a = c
    · subst hac; rw [spliceNext_new] at hab; exact .inl ⟨rfl, hab⟩
    · by_cases hap : a = p
      · subst hap
        rw [spliceNext_prev hpc, Option.some_inj] at hab
        exact .inr (.inl ⟨rfl, hab.symm⟩)
      · rw [spliceNext_other hap hac] at hab
        exact .inr (.inr ⟨ha.resolve_right hac, hap, hab⟩)
  refine ⟨fun a b ha hab => ?_, fun a b x ha hb hax hbx => ?_, fun a h => ?_⟩
  · rcases hnext a b ha hab with ⟨-, h⟩ | ⟨-, rfl⟩ | ⟨hu, -, h⟩
    · exact .inl (hw.closed _ _ hp h)
    · exact .inr rfl
    · exact .inl (hw.closed _ _ hu h)
  · rcases hnext a x ha hax with ⟨rfl, h⟩ | ⟨rfl, rfl⟩ | ⟨hu, hne, h⟩ <;>
      rcases hnext b x hb hbx with ⟨rfl, h'⟩ | ⟨rfl, h'⟩ | ⟨hu', hne', h'⟩
    · rfl
    · exact absurd (h' ▸ hw.closed _ _ hp h) hc
    · exact absurd (hw.inj _ _ _ hp hu' h h').symm hne'
    · exact absurd (hw.closed _ _ hp h') hc
    · rfl
    · exact absurd (hw.closed _ _ hu' h') hc
    · exact absurd (hw.inj _ _ _ hu hp h h') hne
    · exact absurd (h' ▸ hw.closed _ _ hu h) hc
    · exact hw.inj _ _ _ hu hu' h h'
  · rcases splice_transGen hw hp hc h with ⟨rfl, h'⟩ | h'
    · exact hpc h'
    · exact hw.acyclic _ h'

lemma Path.splice (hw : WellLinked used next) (hp : used p) (hc : ¬ used c) {h : κ}
    (hl : Path next h l) (hh : used h) : Path (spliceNext next p c) h (insertAfter p c l) := by
  have hpc : p ≠ c := fun h => hc (h ▸ hp)
  induction hl with
  | @last a hn =>
    have hac : a ≠ c := fun h => hc (h ▸ hh)
    by_cases hap : a = p
    · subst hap
      rw [insertAfter_cons, if_pos rfl]
      exact .cons (spliceNext_prev hpc) (.last (by rw [spliceNext_new, hn]))
    · rw [insertAfter_cons, if_neg hap]
      exact .last (by rw [spliceNext_other hap hac, hn])
  | @cons a b l hn t ih =>
    have hac : a ≠ c := fun h => hc (h ▸ hh)
    have ih' := ih (hw.closed _ _ hh hn)
    by_cases hap : a = p
    · subst hap
      rw [insertAfter_cons, if_pos rfl]
      exact .cons (spliceNext_prev hpc) (.cons (by rw [spliceNext_new, hn]) ih')
    · rw [insertAfter_cons, if_neg hap]
      exact .cons (by rw [spliceNext_other hap hac, hn]) ih'

lemma Path.unsplice (hw : WellLinked used next) (hp : used p) (hc : ¬ used c) {h : κ}
    (hl : Path (spliceNext next p c) h l) :
    (used h → ∃ l₀, Path next h l₀ ∧ l = insertAfter p c l₀) ∧
      (h = c → (next p = none ∧ l = [c]) ∨
        ∃ b l₀, next p = some b ∧ Path next b l₀ ∧ l = c :: insertAfter p c l₀) := by
  have hpc : p ≠ c := fun h => hc (h ▸ hp)
  induction hl with
  | @last a hn =>
    refine ⟨fun ha => ?_, ?_⟩
    · have hac : a ≠ c := fun h => hc (h ▸ ha)
      have hap : a ≠ p := by
        rintro rfl
        rw [spliceNext_prev hpc] at hn; cases hn
      rw [spliceNext_other hap hac] at hn
      exact ⟨[a], .last hn, (insertAfter_of_notMem (by simp [Ne.symm hap])).symm⟩
    · rintro rfl
      rw [spliceNext_new] at hn
      exact .inl ⟨hn, rfl⟩
  | @cons a b l hn t ih =>
    refine ⟨fun ha => ?_, ?_⟩
    · have hac : a ≠ c := fun h => hc (h ▸ ha)
      by_cases hap : a = p
      · subst hap
        rw [spliceNext_prev hpc, Option.some_inj] at hn
        rcases ih.2 hn.symm with ⟨h0, rfl⟩ | ⟨b', l₀, hb', hl₀, rfl⟩
        · exact ⟨[a], .last h0, by simp [insertAfter]⟩
        · exact ⟨a :: l₀, .cons hb' hl₀, by simp [insertAfter_cons]⟩
      · rw [spliceNext_other hap hac] at hn
        obtain ⟨l₀, hl₀, rfl⟩ := ih.1 (hw.closed _ _ ha hn)
        exact ⟨a :: l₀, .cons hn hl₀, by simp [insertAfter_cons, hap]⟩
    · rintro rfl
      rw [spliceNext_new] at hn
      obtain ⟨l₀, hl₀, rfl⟩ := ih.1 (hw.closed _ _ hp hn)
      exact .inr ⟨b, l₀, hn, hl₀, rfl⟩

/-- **The chains after putting `c` behind `p`** are the old ones, with `c` right behind `p` in
the one through `p`. -/
theorem isChain_splice (hw : WellLinked used next) (hp : used p) (hc : ¬ used c) :
    IsChain (fun x => used x ∨ x = c) (spliceNext next p c) l ↔
      ∃ l₀, IsChain used next l₀ ∧ l = insertAfter p c l₀ := by
  have hpc : p ≠ c := fun h => hc (h ▸ hp)
  constructor
  · rintro ⟨h, hh, hl, hfirst⟩
    have hhc : h ≠ c := fun e => hfirst p (.inl hp) (by rw [spliceNext_prev hpc, e])
    obtain ⟨l₀, hl₀, rfl⟩ := (hl.unsplice hw hp hc).1 (hh.resolve_right hhc)
    refine ⟨l₀, ⟨h, hh.resolve_right hhc, hl₀, fun a ha hah => ?_⟩, rfl⟩
    by_cases hap : a = p
    · subst hap
      exact hfirst c (.inr rfl) (by rw [spliceNext_new, hah])
    · have hac : a ≠ c := fun e => hc (e ▸ ha)
      exact hfirst a (.inl ha) (by rw [spliceNext_other hap hac, hah])
  · rintro ⟨l₀, ⟨h, hh, hl₀, hfirst⟩, rfl⟩
    refine ⟨h, .inl hh, hl₀.splice hw hp hc hh, fun a ha hah => ?_⟩
    by_cases hac : a = c
    · subst hac
      rw [spliceNext_new] at hah
      exact hfirst p hp hah
    · by_cases hap : a = p
      · subst hap
        rw [spliceNext_prev hpc, Option.some_inj] at hah
        exact hc (hah ▸ hh)
      · rw [spliceNext_other hap hac] at hah
        exact hfirst a (ha.resolve_right hac) hah

end splice

/-! ### A chain cut in two -/

/-- The table with the chain cut behind `p` and `c` put in front of the part cut off. -/
def cutNext (next : κ → Option κ) (p c : κ) : κ → Option κ :=
  Function.update (Function.update next p none) c (next p)

section cut

variable {used : κ → Prop} {p c : κ}

lemma cut_link (hw : WellLinked used next) (hp : used p) (hc : ¬ used c) {a b : κ}
    (h : Link (fun x => used x ∨ x = c) (cutNext next p c) a b) :
    b ≠ c ∧ ((a = c ∧ next p = some b) ∨ (a ≠ c ∧ a ≠ p ∧ Link used next a b)) := by
  obtain ⟨ha, hab⟩ := h
  unfold cutNext at hab
  by_cases hac : a = c
  · subst hac
    rw [Function.update_self] at hab
    exact ⟨fun e => hc (e ▸ hw.closed _ _ hp hab), .inl ⟨rfl, hab⟩⟩
  · rw [Function.update_of_ne hac] at hab
    have hap : a ≠ p := by
      rintro rfl
      rw [Function.update_self] at hab; cases hab
    rw [Function.update_of_ne hap] at hab
    have hua := ha.resolve_right hac
    exact ⟨fun e => hc (e ▸ hw.closed _ _ hua hab), .inr ⟨hac, hap, hua, hab⟩⟩

/-- **Cutting a chain keeps a table well linked.** -/
theorem WellLinked.cut (hw : WellLinked used next) (hp : used p) (hc : ¬ used c) :
    WellLinked (fun x => used x ∨ x = c) (cutNext next p c) := by
  refine ⟨fun a b ha hab => ?_, fun a b x ha hb hax hbx => ?_, fun a h => ?_⟩
  · obtain ⟨-, ⟨-, h⟩ | ⟨-, -, hl⟩⟩ := cut_link hw hp hc ⟨ha, hab⟩
    · exact .inl (hw.closed _ _ hp h)
    · exact .inl (hw.closed _ _ hl.1 hl.2)
  · obtain ⟨-, ⟨rfl, h⟩ | ⟨-, hap, hl⟩⟩ := cut_link hw hp hc ⟨ha, hax⟩ <;>
      obtain ⟨-, ⟨rfl, h'⟩ | ⟨-, hbp, hl'⟩⟩ := cut_link hw hp hc ⟨hb, hbx⟩
    · rfl
    · exact absurd (hw.inj _ _ _ hl'.1 hp hl'.2 h) hbp
    · exact absurd (hw.inj _ _ _ hl.1 hp hl.2 h') hap
    · exact hw.inj _ _ _ hl.1 hl'.1 hl.2 hl'.2
  · -- read with `p` for `c`, a cycle of the cut table is one of the old
    refine hw.acyclic _ (Relation.TransGen.lift (fun x => if x = c then p else x) ?_ a a h)
    intro x y hxy
    obtain ⟨hyc, ⟨rfl, hl⟩ | ⟨hxc, -, hl⟩⟩ := cut_link hw hp hc hxy
    · have hpy : Link used next p y := ⟨hp, hl⟩
      simpa [Function.onFun, hyc] using hpy
    · simpa [Function.onFun, hyc, hxc] using hl

end cut

/-! ### A chain of one node -/

section fresh

variable {used : κ → Prop} {c : κ}

lemma update_next_of_used (hc : ¬ used c) {a : κ} (ha : used a) :
    Function.update next c none a = next a := by
  rw [Function.update_of_ne]
  rintro rfl
  exact hc ha

lemma fresh_link {a b : κ}
    (h : Link (fun x => used x ∨ x = c) (Function.update next c none) a b) :
    Link used next a b := by
  obtain ⟨ha, hab⟩ := h
  by_cases hac : a = c
  · subst hac; rw [Function.update_self] at hab; cases hab
  · rw [Function.update_of_ne hac] at hab
    exact ⟨ha.resolve_right hac, hab⟩

/-- **A node that starts a chain of its own keeps a table well linked.** -/
theorem WellLinked.fresh (hw : WellLinked used next) :
    WellLinked (fun x => used x ∨ x = c) (Function.update next c none) := by
  refine ⟨fun a b ha hab => ?_, fun a b x ha hb hax hbx => ?_, fun a h => ?_⟩
  · obtain ⟨hu, h⟩ := fresh_link ⟨ha, hab⟩
    exact .inl (hw.closed _ _ hu h)
  · obtain ⟨hu, h⟩ := fresh_link ⟨ha, hax⟩
    obtain ⟨hu', h'⟩ := fresh_link ⟨hb, hbx⟩
    exact hw.inj _ _ _ hu hu' h h'
  · exact hw.acyclic a (Relation.TransGen.mono (fun _ _ => fresh_link) a a h)

lemma path_fresh (hw : WellLinked used next) (hc : ¬ used c) {h : κ} (hh : used h) :
    Path (Function.update next c none) h l ↔ Path next h l := by
  constructor
  · intro hl
    induction hl with
    | last hn =>
      rw [update_next_of_used hc hh] at hn
      exact .last hn
    | cons hn t ih =>
      rw [update_next_of_used hc hh] at hn
      exact .cons hn (ih (hw.closed _ _ hh hn))
  · intro hl
    exact hl.congr fun x hx => update_next_of_used hc (hl.used hw hh x hx)

/-- **The chains after `c` has started its own** are the old ones and `c` alone. -/
theorem isChain_fresh (hw : WellLinked used next) (hc : ¬ used c) :
    IsChain (fun x => used x ∨ x = c) (Function.update next c none) l ↔
      IsChain used next l ∨ l = [c] := by
  constructor
  · rintro ⟨h, hh, hl, hfirst⟩
    by_cases hhc : h = c
    · subst hhc
      exact .inr (hl.unique (.last (Function.update_self ..)))
    · have hu := hh.resolve_right hhc
      refine .inl ⟨h, hu, (path_fresh hw hc hu).mp hl, fun a ha hah => ?_⟩
      exact hfirst a (.inl ha) (by rw [update_next_of_used hc ha, hah])
  · rintro (⟨h, hh, hl, hfirst⟩ | rfl)
    · refine ⟨h, .inl hh, (path_fresh hw hc hh).mpr hl, fun a ha hah => ?_⟩
      by_cases hac : a = c
      · subst hac; rw [Function.update_self] at hah; cases hah
      · rw [Function.update_of_ne hac] at hah
        exact hfirst a (ha.resolve_right hac) hah
    · refine ⟨c, .inr rfl, .last (Function.update_self ..), fun a ha hah => ?_⟩
      by_cases hac : a = c
      · subst hac; rw [Function.update_self] at hah; cases hah
      · rw [Function.update_of_ne hac] at hah
        exact hc (hw.closed _ _ (ha.resolve_right hac) hah)

end fresh

end RustyOs.Links
