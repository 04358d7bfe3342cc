import Mathlib.Data.List.Sort
import Mathlib.Tactic

/-!
# Priority queues and sorting up to ties

A priority queue and a sort as a standard library specifies them: the order
among equal elements is left open, and the order of the result is promised
only when the comparison is a strict weak order.  Whatever the comparison is,
elements are neither lost nor invented.
-/

/-- A comparison that sorting may rely on. -/
structure StrictWeak {α : Type} (less : α → α → Bool) : Prop where
  asymm : ∀ a b, less a b = true → less b a = false
  neg_trans : ∀ a b c, less a b = false → less b c = false → less a c = false

namespace StrictWeak

variable {α : Type} {less : α → α → Bool}

theorem total (h : StrictWeak less) (a b : α) :
    less a b = false ∨ less b a = false := by
  cases hab : less a b with
  | false => exact Or.inl rfl
  | true => exact Or.inr (h.asymm a b hab)

theorem flip (h : StrictWeak less) : StrictWeak fun a b => less b a where
  asymm := fun a b hab => h.asymm b a hab
  neg_trans := fun a b c hab hbc => h.neg_trans c b a hbc hab

theorem ofKey {β : Type} [LinearOrder β] (key : α → β) :
    StrictWeak fun a b => decide (key a < key b) where
  asymm := by
    intro a b hab
    simp only [decide_eq_true_eq, decide_eq_false_iff_not] at hab ⊢
    exact hab.asymm
  neg_trans := by
    intro a b c hab hbc
    simp only [decide_eq_false_iff_not, not_lt] at hab hbc ⊢
    exact hbc.trans hab

end StrictWeak

structure Sorter (α : Type) where
  sort : (α → α → Bool) → List α → List α
  perm : ∀ less l, (sort less l).Perm l
  sorted : ∀ less l, StrictWeak less →
    (sort less l).Pairwise fun a b => less b a = false

/-- Insertion sort is a sorter. -/
def Sorter.insertion (α : Type) : Sorter α where
  sort := fun less l => l.insertionSort fun a b => less b a = false
  perm := fun _ l => List.perm_insertionSort _ l
  sorted := by
    intro less l hless
    have : Std.Total fun a b => less b a = false := ⟨hless.flip.total⟩
    have : IsTrans α fun a b => less b a = false := ⟨hless.flip.neg_trans⟩
    exact List.pairwise_insertionSort _ l

/-- A sort that puts `k` least elements in front, in order. -/
structure PartialSorter (α : Type) where
  sort : (α → α → Bool) → ℕ → List α → List α
  perm : ∀ less k l, (sort less k l).Perm l
  sorted : ∀ less k l, StrictWeak less →
    ((sort less k l).take k).Pairwise fun a b => less b a = false
  least : ∀ less k l, StrictWeak less →
    ∀ a ∈ (sort less k l).take k, ∀ b ∈ (sort less k l).drop k,
      less b a = false

/-- To sort everything is enough. -/
def Sorter.front {α : Type} (sorter : Sorter α) : PartialSorter α where
  sort := fun less _ l => sorter.sort less l
  perm := fun less _ l => sorter.perm less l
  sorted := fun less k l hless =>
    (sorter.sorted less l hless).sublist (List.take_sublist k _)
  least := by
    intro less k l hless a ha b hb
    have hsorted := sorter.sorted less l hless
    rw [← List.take_append_drop k (sorter.sort less l)] at hsorted
    exact (List.pairwise_append.mp hsorted).2.2 a ha b hb

/-- A queue whose `top` is an element that none of the others exceeds. -/
structure PriorityQueue (α : Type) (less : α → α → Bool) where
  Queue : Type
  empty : Queue
  push : α → Queue → Queue
  top : Queue → Option α
  pop : Queue → Queue
  toList : Queue → List α
  toList_empty : toList empty = []
  toList_push : ∀ a q, (toList (push a q)).Perm (a :: toList q)
  top_eq_none : ∀ q, top q = none ↔ toList q = []
  toList_pop : ∀ q a, top q = some a → (toList q).Perm (a :: toList (pop q))
  top_max : ∀ q a, StrictWeak less → top q = some a →
    ∀ b ∈ toList q, less a b = false

namespace PriorityQueue

variable {α : Type} {less : α → α → Bool} (pq : PriorityQueue α less)

def size (q : pq.Queue) : ℕ := (pq.toList q).length

/-- Popping until the queue is empty, at most `fuel` times. -/
def drainFrom : ℕ → pq.Queue → List α
  | 0, _ => []
  | fuel + 1, q =>
      match pq.top q with
      | none => []
      | some a => a :: drainFrom fuel (pq.pop q)

def drain (q : pq.Queue) : List α := pq.drainFrom (pq.size q) q

variable {pq} {q : pq.Queue} {a : α}

@[simp] theorem size_empty : pq.size pq.empty = 0 := by
  simp [size, pq.toList_empty]

@[simp] theorem size_push : pq.size (pq.push a q) = pq.size q + 1 := by
  simpa [size] using (pq.toList_push a q).length_eq

theorem size_pop (htop : pq.top q = some a) :
    pq.size q = pq.size (pq.pop q) + 1 := by
  simpa [size] using (pq.toList_pop q a htop).length_eq

theorem exists_top (hsize : 0 < pq.size q) : ∃ a, pq.top q = some a := by
  cases htop : pq.top q with
  | none =>
      have hempty := (pq.top_eq_none q).mp htop
      simp [size, hempty] at hsize
  | some a => exact ⟨a, rfl⟩

theorem drain_perm : (pq.drain q).Perm (pq.toList q) := by
  suffices hfuel : ∀ fuel (r : pq.Queue), pq.size r = fuel →
      (pq.drainFrom fuel r).Perm (pq.toList r) from hfuel _ q rfl
  intro fuel
  induction fuel with
  | zero =>
      intro r hsize
      rw [List.length_eq_zero_iff.mp hsize]
      exact List.Perm.nil
  | succ fuel ih =>
      intro r hsize
      obtain ⟨a, htop⟩ := exists_top (q := r) (by omega)
      have hpop := size_pop htop
      simp only [drainFrom, htop]
      exact ((ih (pq.pop r) (by omega)).cons a).trans
        (pq.toList_pop r a htop).symm

/-- A list kept in order is a priority queue. -/
def sortedList (α : Type) (less : α → α → Bool) : PriorityQueue α less where
  Queue := { l : List α //
    StrictWeak less → l.Pairwise fun a b => less a b = false }
  empty := ⟨[], fun _ => List.Pairwise.nil⟩
  push := fun a q =>
    ⟨q.1.orderedInsert (fun a b => less a b = false) a, by
      intro hless
      have : Std.Total fun a b => less a b = false := ⟨hless.total⟩
      have : IsTrans α fun a b => less a b = false := ⟨hless.neg_trans⟩
      exact (q.2 hless).orderedInsert a _⟩
  top := fun q => q.1.head?
  pop := fun q => ⟨q.1.tail, fun hless => (q.2 hless).tail⟩
  toList := fun q => q.1
  toList_empty := rfl
  toList_push := fun a q => List.perm_orderedInsert _ a q.1
  top_eq_none := fun q => List.head?_eq_none_iff
  toList_pop := by
    rintro ⟨l, hl⟩ a htop
    cases l with
    | nil => simp at htop
    | cons b l =>
        simp only [List.head?_cons, Option.some.injEq] at htop
        subst htop
        exact List.Perm.refl _
  top_max := by
    rintro ⟨l, hl⟩ a hless htop b hb
    cases l with
    | nil => simp at htop
    | cons c l =>
        simp only [List.head?_cons, Option.some.injEq] at htop
        subst htop
        rcases List.mem_cons.mp hb with rfl | hb
        · exact (hless.total b b).elim id id
        · exact (List.pairwise_cons.mp (hl hless)).1 b hb

end PriorityQueue
