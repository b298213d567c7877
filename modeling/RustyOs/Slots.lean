import Mathlib

/-!
A table of slots, some in use and some free, filled by putting each new content into the first
free slot.

The listing of the table has the contents in use, in the order of their places. All slots in
front of the first free one are in use, so a content put there comes into the listing at the
number of its slot.
-/

namespace RustyOs.Slots

variable {P C E K : Type}

lemma insertIdx_append_length (l r : List E) (x : E) :
    (l ++ r).insertIdx l.length x = l ++ x :: r := by
  induction l with
  | nil => rfl
  | cons a l ih => rw [List.cons_append, List.length_cons, List.insertIdx_succ_cons, ih,
      List.cons_append]

variable (live : C → Bool) (dec : C → E)

/-- The contents in use, in the order of their places. -/
def listing (g : P → C) (ps : List P) : List E :=
  (ps.filter fun p => live (g p)).map fun p => dec (g p)

/-- The first place that is not in use. -/
def firstFree (g : P → C) (ps : List P) : Option P := ps.find? fun p => !live (g p)

variable {live dec} {g g' : P → C} {ps qs : List P} {p : P} {v : C}

lemma listing_append : listing live dec g (ps ++ qs) =
    listing live dec g ps ++ listing live dec g qs := by
  rw [listing, List.filter_append, List.map_append, listing, listing]

lemma listing_cons_live (h : live (g p) = true) :
    listing live dec g (p :: ps) = dec (g p) :: listing live dec g ps := by
  simp [listing, h]

lemma listing_cons_free (h : live (g p) = false) :
    listing live dec g (p :: ps) = listing live dec g ps := by
  simp [listing, h]

lemma length_listing_live (h : ∀ q ∈ ps, live (g q) = true) :
    (listing live dec g ps).length = ps.length := by
  rw [listing, List.length_map, List.filter_eq_self.mpr h]

lemma listing_congr (h : ∀ q ∈ ps, g' q = g q) :
    listing live dec g' ps = listing live dec g ps := by
  rw [listing, listing, List.filter_congr fun q hq => by rw [h q hq]]
  exact List.map_congr_left fun q hq => by rw [h q (List.mem_of_mem_filter hq)]

lemma length_listing_add (live : C → Bool) (dec : C → E) (g : P → C) (ps : List P) :
    (listing live dec g ps).length + ps.countP (fun p => !live (g p)) = ps.length := by
  rw [listing, List.length_map, ← List.countP_eq_length_filter,
    List.length_eq_countP_add_countP fun p => live (g p)]
  simp

variable [DecidableEq P]

/-- **Filling the first free slot.** The new content is listed at the number of its slot. -/
theorem listing_update_firstFree (hnd : ps.Nodup) (hfree : firstFree live g ps = some p)
    (hv : live v = true) : ∃ pre post, ps = pre ++ p :: post ∧ (∀ q ∈ pre, live (g q) = true) ∧
      live (g p) = false ∧ listing live dec (Function.update g p v) ps =
        (listing live dec g ps).insertIdx pre.length (dec v) := by
  obtain ⟨hp, pre, post, rfl, hpre⟩ := List.find?_eq_some_iff_append.mp hfree
  simp only [Bool.not_eq_true'] at hp
  simp only [Bool.not_not] at hpre
  refine ⟨pre, post, rfl, hpre, hp, ?_⟩
  obtain ⟨hp₁, hp₂⟩ : p ∉ pre ∧ p ∉ post := by
    have hmid := List.nodup_middle.mp hnd
    have hnot := (List.nodup_cons.mp hmid).1
    exact ⟨fun h => hnot (List.mem_append_left _ h), fun h => hnot (List.mem_append_right _ h)⟩
  have hother : ∀ qs : List P, p ∉ qs →
      listing live dec (Function.update g p v) qs = listing live dec g qs := fun qs hqs =>
    listing_congr fun q hq => Function.update_of_ne (ne_of_mem_of_not_mem hq hqs) v g
  have hlen : (listing live dec g pre).length = pre.length := length_listing_live hpre
  have hnew : live (Function.update g p v p) = true := by rwa [Function.update_self]
  calc listing live dec (Function.update g p v) (pre ++ p :: post)
      = listing live dec g pre ++ dec v :: listing live dec g post := by
        rw [listing_append, listing_cons_live hnew, Function.update_self, hother pre hp₁,
          hother post hp₂]
    _ = (listing live dec g pre ++ listing live dec g post).insertIdx pre.length (dec v) := by
        rw [← hlen, insertIdx_append_length]
    _ = (listing live dec g (pre ++ p :: post)).insertIdx pre.length (dec v) := by
        rw [listing_append, listing_cons_free hp]

lemma listing_update_free (hp : live (g p) = false) (hv : live v = false) :
    listing live dec (Function.update g p v) ps = listing live dec g ps := by
  have hlive : ∀ q, live (Function.update g p v q) = live (g q) := by
    intro q
    by_cases hq : q = p
    · rw [hq, Function.update_self, hv, hp]
    · rw [Function.update_of_ne hq]
  rw [listing, listing, List.filter_congr fun q _ => hlive q]
  refine List.map_congr_left fun q hq => ?_
  have hqp : q ≠ p := by
    rintro rfl
    rw [(List.mem_filter.mp hq).2] at hp
    cases hp
  rw [Function.update_of_ne hqp]

lemma nodup_insertIdx_iff {key : E → K} {l : List E} {i : ℕ} (hi : i ≤ l.length) (e : E) :
    ((l.insertIdx i e).map key).Nodup ↔ key e ∉ l.map key ∧ (l.map key).Nodup := by
  rw [((List.perm_insertIdx e l hi).map key).nodup_iff, List.map_cons, List.nodup_cons]

end RustyOs.Slots
