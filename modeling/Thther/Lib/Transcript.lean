import Mathlib.Data.List.Basic
import Mathlib.Data.Nat.Basic
import Mathlib.Algebra.GroupWithZero.Nat

/-!
# Transcripts of a stream, with announced gaps

A transcript is a list of segments, each either bytes taken from a stream or the announcement of
a gap.  Read from a position `p` of the stream, every segment moves the position on by its span.

* `span`, `payload`, `gaps`: the positions covered, the bytes shown, the ranges announced missing;
* `shown`, `announced`: the elements shown with their positions, the number of those missing;
* `Tells S p segs`: the bytes shown are those of `S` at the positions where they stand;
* `without S ranges`: `S` with the positions of `ranges` left out;
* `Tells.payload_eq`: a transcript that tells `S` from the start shows, in order and each exactly
  once, the elements it covers outside its gaps.
-/

namespace Transcript

variable {α : Type*}

/-- A piece of a transcript. -/
inductive Segment (α : Type*)
  | gap (n : ℕ)
  | bytes (xs : List α)
  deriving DecidableEq

/-- The number of stream positions a segment covers. -/
def Segment.span : Segment α → ℕ
  | .gap n => n
  | .bytes xs => xs.length

/-- The number of stream positions a transcript covers. -/
def span (segs : List (Segment α)) : ℕ := (segs.map Segment.span).sum

/-- The elements shown. -/
def payload : List (Segment α) → List α
  | [] => []
  | .gap _ :: segs => payload segs
  | .bytes xs :: segs => xs ++ payload segs

/-- The ranges announced missing by a transcript read from position `p`. -/
def gaps : ℕ → List (Segment α) → List (ℕ × ℕ)
  | _, [] => []
  | p, .gap n :: segs => (p, p + n) :: gaps (p + n) segs
  | p, .bytes xs :: segs => gaps (p + xs.length) segs

/-- The elements shown by a transcript read from position `p`, each with its position. -/
def shown : ℕ → List (Segment α) → List (α × ℕ)
  | _, [] => []
  | p, .gap n :: segs => shown (p + n) segs
  | p, .bytes xs :: segs => xs.zipIdx p ++ shown (p + xs.length) segs

/-- The number of elements announced missing. -/
def announced : List (Segment α) → ℕ
  | [] => 0
  | .gap n :: segs => n + announced segs
  | .bytes _ :: segs => announced segs

/-- Read from position `p`, the bytes shown are those of `S`. -/
def Tells (S : List α) : ℕ → List (Segment α) → Prop
  | _, [] => True
  | p, .gap n :: segs => Tells S (p + n) segs
  | p, .bytes xs :: segs => xs <+: S.drop p ∧ Tells S (p + xs.length) segs

/-- The elements of `S`, whose first one has position `p`, outside the given ranges. -/
def withoutFrom (p : ℕ) (S : List α) (ranges : List (ℕ × ℕ)) : List α :=
  ((S.zipIdx p).filter fun x => ranges.all fun r => decide (x.2 < r.1 ∨ r.2 ≤ x.2)).map (·.1)

/-- The elements of `S` at positions outside the given ranges. -/
def without (S : List α) (ranges : List (ℕ × ℕ)) : List α := withoutFrom 0 S ranges

/-! ### Growing a transcript -/

@[simp] theorem span_nil : span ([] : List (Segment α)) = 0 := rfl

@[simp] theorem span_cons (g : Segment α) (segs : List (Segment α)) :
    span (g :: segs) = g.span + span segs := by
  simp [span]

@[simp] theorem span_append (a b : List (Segment α)) : span (a ++ b) = span a + span b := by
  simp [span]

theorem gaps_append (p : ℕ) (a b : List (Segment α)) :
    gaps p (a ++ b) = gaps p a ++ gaps (p + span a) b := by
  induction a generalizing p with
  | nil => rfl
  | cons g a ih =>
    cases g with
    | gap n => simp only [List.cons_append, gaps, ih, span_cons, Segment.span, Nat.add_assoc]
    | bytes xs => simp only [List.cons_append, gaps, ih, span_cons, Segment.span, Nat.add_assoc]

theorem tells_append {S : List α} {p : ℕ} {a b : List (Segment α)} :
    Tells S p (a ++ b) ↔ Tells S p a ∧ Tells S (p + span a) b := by
  induction a generalizing p with
  | nil => simp [Tells]
  | cons g a ih =>
    cases g with
    | gap n => simp only [List.cons_append, Tells, ih, span_cons, Segment.span, Nat.add_assoc]
    | bytes xs =>
      simp only [List.cons_append, Tells, ih, span_cons, Segment.span, Nat.add_assoc, and_assoc]

theorem isPrefix_drop_append {xs S : List α} {p : ℕ} (h : xs <+: S.drop p) (T : List α) :
    xs <+: (S ++ T).drop p := by
  rw [List.drop_append]
  exact h.trans (List.prefix_append _ _)

/-- A transcript keeps telling a stream that grows. -/
theorem Tells.append_stream {S : List α} {p : ℕ} {segs : List (Segment α)} (h : Tells S p segs)
    (T : List α) : Tells (S ++ T) p segs := by
  induction segs generalizing p with
  | nil => trivial
  | cons g segs ih =>
    cases g with
    | gap n => exact ih h
    | bytes xs => exact ⟨isPrefix_drop_append h.1 T, ih h.2⟩

/-! ### What a transcript shows -/

theorem shown_append (p : ℕ) (a b : List (Segment α)) :
    shown p (a ++ b) = shown p a ++ shown (p + span a) b := by
  induction a generalizing p with
  | nil => rfl
  | cons g a ih =>
    cases g with
    | gap n => simp only [List.cons_append, shown, ih, span_cons, Segment.span, Nat.add_assoc]
    | bytes xs =>
      simp only [List.cons_append, shown, ih, span_cons, Segment.span, Nat.add_assoc,
        List.append_assoc]

theorem map_fst_shown (p : ℕ) (segs : List (Segment α)) :
    (shown p segs).map (·.1) = payload segs := by
  induction segs generalizing p with
  | nil => rfl
  | cons g segs ih =>
    cases g with
    | gap n => exact ih (p + n)
    | bytes xs => rw [shown, payload, List.map_append, List.zipIdx_map_fst, ih]

theorem le_of_mem_shown {p : ℕ} {segs : List (Segment α)} {x : α × ℕ} (h : x ∈ shown p segs) :
    p ≤ x.2 := by
  induction segs generalizing p with
  | nil => cases h
  | cons g segs ih =>
    cases g with
    | gap n =>
      have := ih h
      omega
    | bytes xs =>
      rcases List.mem_append.1 h with h | h
      · exact (List.mem_zipIdx (x := x.1) (i := x.2) h).1
      · have := ih h
        omega

/-- What is shown lies before the end. -/
theorem lt_of_mem_shown {p : ℕ} {segs : List (Segment α)} {x : α × ℕ} (h : x ∈ shown p segs) :
    x.2 < p + span segs := by
  induction segs generalizing p with
  | nil => cases h
  | cons g segs ih =>
    rw [span_cons]
    cases g with
    | gap n =>
      have := ih h
      show x.2 < p + (n + span segs)
      omega
    | bytes xs =>
      show x.2 < p + (xs.length + span segs)
      rcases List.mem_append.1 h with h | h
      · have := (List.mem_zipIdx (x := x.1) (i := x.2) h).2.1
        omega
      · have := ih h
        omega

/-- The positions shown increase strictly, so no position is shown twice. -/
theorem pairwise_shown (p : ℕ) (segs : List (Segment α)) :
    (shown p segs).Pairwise fun x y => x.2 < y.2 := by
  induction segs generalizing p with
  | nil => exact List.Pairwise.nil
  | cons g segs ih =>
    cases g with
    | gap n => exact ih (p + n)
    | bytes xs =>
      rw [shown, List.pairwise_append]
      refine ⟨?_, ih _, ?_⟩
      · have hrange : ((xs.zipIdx p).map (·.2)).Pairwise (· < ·) := by
          rw [List.zipIdx_map_snd]
          exact List.pairwise_lt_range'
        exact List.pairwise_map.1 hrange
      · intro x hx y hy
        have hlt := (List.mem_zipIdx (x := x.1) (i := x.2) hx).2.1
        have hle := le_of_mem_shown hy
        omega

/-- What is shown and what is announced missing add up to what is covered. -/
theorem length_payload_add_announced (segs : List (Segment α)) :
    (payload segs).length + announced segs = span segs := by
  induction segs with
  | nil => rfl
  | cons g segs ih =>
    rw [span_cons]
    cases g with
    | gap n =>
      show (payload segs).length + (n + announced segs) = n + span segs
      omega
    | bytes xs =>
      show (xs ++ payload segs).length + announced segs = xs.length + span segs
      rw [List.length_append]
      omega

theorem le_of_mem_gaps {p : ℕ} {segs : List (Segment α)} {r : ℕ × ℕ} (h : r ∈ gaps p segs) :
    p ≤ r.1 := by
  induction segs generalizing p with
  | nil => cases h
  | cons g segs ih =>
    cases g with
    | gap n =>
      rcases List.mem_cons.1 h with rfl | h
      · exact Nat.le_refl _
      · have := ih h; omega
    | bytes xs => have := ih h; omega

theorem withoutFrom_append (p : ℕ) (S T : List α) (ranges : List (ℕ × ℕ)) :
    withoutFrom p (S ++ T) ranges =
      withoutFrom p S ranges ++ withoutFrom (p + S.length) T ranges := by
  rw [withoutFrom, List.zipIdx_append, List.filter_append, List.map_append]
  rfl

/-- A stretch that no range meets is kept whole. -/
theorem withoutFrom_of_disjoint {p : ℕ} {S : List α} {ranges : List (ℕ × ℕ)}
    (h : ∀ r ∈ ranges, p + S.length ≤ r.1) : withoutFrom p S ranges = S := by
  have hkeep : (S.zipIdx p).filter
      (fun x => ranges.all fun r => decide (x.2 < r.1 ∨ r.2 ≤ x.2)) = S.zipIdx p := by
    rw [List.filter_eq_self]
    rintro ⟨x, i⟩ hx
    have hi := (List.mem_zipIdx hx).2.1
    simp only [List.all_eq_true, decide_eq_true_eq]
    intro r hr
    have := h r hr
    omega
  rw [withoutFrom, hkeep, List.zipIdx_map_fst]

/-- A range drops the stretch it covers. -/
theorem withoutFrom_cons_range (p : ℕ) (S : List α) (ranges : List (ℕ × ℕ)) :
    withoutFrom p S ((p, p + S.length) :: ranges) = [] := by
  rw [withoutFrom, List.map_eq_nil_iff, List.filter_eq_nil_iff]
  rintro ⟨x, i⟩ hx
  have hi := List.mem_zipIdx hx
  simp only [List.all_cons, Bool.and_eq_true, decide_eq_true_eq, not_and]
  omega

/-- A range that ends before a stretch has no effect on it. -/
theorem withoutFrom_cons_of_le {p : ℕ} {S : List α} {r : ℕ × ℕ} (h : r.2 ≤ p)
    (ranges : List (ℕ × ℕ)) : withoutFrom p S (r :: ranges) = withoutFrom p S ranges := by
  rw [withoutFrom, withoutFrom]
  congr 1
  apply List.filter_congr
  rintro ⟨x, i⟩ hx
  have hi := (List.mem_zipIdx hx).1
  have hr : i < r.1 ∨ r.2 ≤ i := Or.inr (by omega)
  simp [hr]

theorem payload_eq_withoutFrom {S : List α} {p : ℕ} {segs : List (Segment α)}
    (h : Tells S p segs) (hlen : p + span segs ≤ S.length) :
    payload segs = withoutFrom p ((S.drop p).take (span segs)) (gaps p segs) := by
  induction segs generalizing p with
  | nil => simp [payload, withoutFrom]
  | cons g segs ih =>
    rw [span_cons] at hlen ⊢
    rw [List.take_add, List.drop_drop, withoutFrom_append, List.length_take, List.length_drop]
    cases g with
    | gap n =>
      simp only [Segment.span] at hlen ⊢
      have hn : min n (S.length - p) = n := by omega
      have hfirst : withoutFrom p ((S.drop p).take n) (gaps p (.gap n :: segs)) = [] := by
        have hl : ((S.drop p).take n).length = n := by simp; omega
        have := withoutFrom_cons_range p ((S.drop p).take n) (gaps (p + n) segs)
        rwa [hl] at this
      rw [hfirst, hn, List.nil_append, gaps,
        withoutFrom_cons_of_le (r := (p, p + n)) (Nat.le_refl _)]
      exact ih h (by omega)
    | bytes xs =>
      simp only [Segment.span] at hlen ⊢
      have hxs : (S.drop p).take xs.length = xs := (List.prefix_iff_eq_take.1 h.1).symm
      have hfirst : withoutFrom p xs (gaps p (.bytes xs :: segs)) = xs :=
        withoutFrom_of_disjoint fun r hr => le_of_mem_gaps hr
      rw [hxs, hfirst, payload, gaps, Nat.min_eq_left (by omega)]
      rw [ih h.2 (by omega)]

/-- **In order and each exactly once**: what a transcript of `S` shows is the stretch it covers
without the ranges it announced missing. -/
theorem Tells.payload_eq {S : List α} {segs : List (Segment α)} (h : Tells S 0 segs)
    (hlen : span segs ≤ S.length) : payload segs = without (S.take (span segs)) (gaps 0 segs) := by
  have := payload_eq_withoutFrom h (by omega)
  rwa [List.drop_zero] at this

end Transcript
