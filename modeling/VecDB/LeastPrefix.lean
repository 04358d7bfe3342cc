import Mathlib.Data.List.Perm.Subperm
import Mathlib.Data.List.Sort
import Mathlib.Tactic

/-!
# The least elements of a list that was thinned out

An element may be dropped from a list when `k` of those that are kept are not
above it.  The `k` least of what is kept are then the `k` least of all.
-/

namespace LeastPrefix

variable {α β : Type} [LinearOrder β] {key : α → β} {k : ℕ}

/-- `least` is the `k` least elements of `l`, in order. -/
structure LeastOf (key : α → β) (k : ℕ) (l least : List α) : Prop where
  sorted : least.Pairwise fun a b => key a ≤ key b
  length_eq : least.length = min k l.length
  rest : ∃ rest, (least ++ rest).Perm l ∧
    ∀ a ∈ least, ∀ b ∈ rest, key a ≤ key b

/-- `k` elements of `kept` are not above `d`. -/
def Covers (key : α → β) (k : ℕ) (kept : List α) (d : β) : Prop :=
  ∃ front : List α, front.Subperm kept ∧ front.length = k ∧
    ∀ a ∈ front, key a ≤ d

theorem Covers.mono {kept more : List α} {d : β} (h : Covers key k kept d)
    (hsub : kept.Subperm more) : Covers key k more d := by
  obtain ⟨front, hfront, hlength, hle⟩ := h
  exact ⟨front, hfront.trans hsub, hlength, hle⟩

theorem Covers.length_le {kept : List α} {d : β} (h : Covers key k kept d) :
    k ≤ kept.length := by
  obtain ⟨front, hfront, hlength, _⟩ := h
  exact hlength ▸ hfront.length_le

namespace LeastOf

variable {l least : List α}

/-- Too few elements are below an element that is not covered. -/
theorem le_of_covers (h : LeastOf key k l least) {d : β}
    (hcovers : Covers key k l d) {a : α} (ha : a ∈ least) : key a ≤ d := by
  obtain ⟨rest, hperm, hrest⟩ := h.rest
  obtain ⟨front, hfront, hlength, hfrontLe⟩ := hcovers
  by_contra hlt
  rw [not_le] at hlt
  have hcount : k ≤ l.countP fun b => decide (key b ≤ d) := by
    have hall : (front.countP fun b => decide (key b ≤ d)) = front.length :=
      List.countP_eq_length.mpr fun b hb => decide_eq_true (hfrontLe b hb)
    rw [← hlength, ← hall]
    exact hfront.countP_le _
  have hbehind : (rest.countP fun b => decide (key b ≤ d)) = 0 := by
    rw [List.countP_eq_zero]
    intro b hb
    simpa using hlt.trans_le (hrest a ha b hb)
  have hinside : (least.countP fun b => decide (key b ≤ d)) < least.length := by
    refine lt_of_le_of_ne List.countP_le_length ?_
    intro hall
    have hle := List.countP_eq_length.mp hall a ha
    exact absurd (of_decide_eq_true hle) (not_le.mpr hlt)
  rw [← hperm.countP_eq, List.countP_append, hbehind] at hcount
  have hshort := h.length_eq
  omega

/-- What is dropped in the shadow of `k` kept elements is not missed. -/
theorem of_covers (h : LeastOf key k l least) {dropped all : List α}
    (hall : (l ++ dropped).Perm all)
    (hcovers : ∀ d ∈ dropped, Covers key k l (key d)) :
    LeastOf key k all least where
  sorted := h.sorted
  length_eq := by
    rw [h.length_eq, ← hall.length_eq, List.length_append]
    cases dropped with
    | nil => rw [List.length_nil, Nat.add_zero]
    | cons d dropped =>
        have hle := (hcovers d (by simp)).length_le
        omega
  rest := by
    obtain ⟨rest, hperm, hrest⟩ := h.rest
    refine ⟨rest ++ dropped, ?_, ?_⟩
    · rw [← List.append_assoc]
      exact (hperm.append_right dropped).trans hall
    · intro a ha b hb
      obtain hb | hb := List.mem_append.mp hb
      · exact hrest a ha b hb
      · exact h.le_of_covers (hcovers b hb) ha

/-- The keys are the front of the sorted keys. -/
theorem map_eq (h : LeastOf key k l least) :
    least.map key = ((l.map key).insertionSort (· ≤ ·)).take k := by
  obtain ⟨rest, hperm, hrest⟩ := h.rest
  have hsorted : (least.map key ++
      (rest.map key).insertionSort (· ≤ ·)).Pairwise (· ≤ ·) := by
    refine List.pairwise_append.mpr ⟨List.pairwise_map.mpr h.sorted,
      List.pairwise_insertionSort _ _, ?_⟩
    intro x hx y hy
    obtain ⟨a, ha, rfl⟩ := List.mem_map.mp hx
    rw [(List.perm_insertionSort _ _).mem_iff] at hy
    obtain ⟨b, hb, rfl⟩ := List.mem_map.mp hy
    exact hrest a ha b hb
  have hsame : least.map key ++ (rest.map key).insertionSort (· ≤ ·) =
      (l.map key).insertionSort (· ≤ ·) := by
    refine List.Perm.eq_of_pairwise' hsorted
      (List.pairwise_insertionSort _ _) ?_
    have hmap : (least.map key ++ rest.map key).Perm (l.map key) := by
      rw [← List.map_append]
      exact hperm.map key
    exact ((List.perm_insertionSort _ _).append_left _).trans
      (hmap.trans (List.perm_insertionSort _ _).symm)
  rw [← hsame, List.take_append]
  have hlength := h.length_eq
  have htotal := hperm.length_eq
  rw [List.length_append] at htotal
  by_cases hle : k ≤ l.length
  · rw [List.length_map, show k - least.length = 0 by omega, List.take_zero,
      List.append_nil, List.take_of_length_le (by simp; omega)]
  · obtain rfl : rest = [] := List.eq_nil_of_length_eq_zero (by omega)
    rw [List.map_nil, List.insertionSort_nil, List.take_nil, List.append_nil,
      List.take_of_length_le (by simp; omega)]

end LeastOf

/-- A part of a list that contains a choice of its `k` least elements. -/
def KeepsLeast (key : α → β) (k : ℕ) (whole part : List α) : Prop :=
  part.Subperm whole ∧ ∃ front rest : List α, (front ++ rest).Perm whole ∧
    front.length = min k whole.length ∧
    (∀ a ∈ front, ∀ b ∈ rest, key a ≤ key b) ∧ front.Subperm part

theorem keepsLeast_of_length_le {whole : List α} (hle : whole.length ≤ k) :
    KeepsLeast key k whole whole :=
  ⟨List.Subperm.refl _, whole, [], by simp, by omega, by simp,
    List.Subperm.refl _⟩

theorem exists_perm_of_subperm {l l' : List α} (h : l.Subperm l') :
    ∃ rest, (l ++ rest).Perm l' := by
  obtain ⟨mid, hmid, hsub⟩ := h
  obtain ⟨rest, hrest⟩ := hsub.exists_perm_append
  exact ⟨rest, (hmid.symm.append_right rest).trans hrest.symm⟩

/-- What the part leaves out is covered by the part. -/
theorem KeepsLeast.covers {whole part : List α}
    (h : KeepsLeast key k whole part) :
    ∃ dropped, (part ++ dropped).Perm whole ∧
      ∀ d ∈ dropped, Covers key k part (key d) := by
  obtain ⟨hpart, front, rest, hwhole, hlength, hle, hfront⟩ := h
  obtain ⟨dropped, hdropped⟩ := exists_perm_of_subperm hpart
  obtain ⟨more, hmore⟩ := exists_perm_of_subperm hfront
  refine ⟨dropped, hdropped, ?_⟩
  intro d hd
  have hrest : (more ++ dropped).Perm rest := by
    have hboth : (front ++ (more ++ dropped)).Perm (front ++ rest) := by
      rw [← List.append_assoc]
      exact (hmore.append_right dropped).trans
        (hdropped.trans hwhole.symm)
    exact (List.perm_append_left_iff front).mp hboth
  have hmem : d ∈ rest := hrest.mem_iff.mp (List.mem_append_right more hd)
  have hpos := List.length_pos_of_mem hmem
  have htotal := hwhole.length_eq
  rw [List.length_append] at htotal
  exact ⟨front, hfront, by omega, fun a ha => hle a ha d hmem⟩

/-- An element of the whole list is kept, or covered by what is. -/
theorem KeepsLeast.mem_or_covers {whole part : List α}
    (h : KeepsLeast key k whole part) {a : α} (ha : a ∈ whole) :
    a ∈ part ∨ Covers key k part (key a) := by
  obtain ⟨dropped, hperm, hcovers⟩ := h.covers
  rcases List.mem_append.mp (hperm.mem_iff.mpr ha) with hkept | hdropped
  · exact Or.inl hkept
  · exact Or.inr (hcovers a hdropped)

/-- What a list covers, it covers when it is thinned out. -/
theorem KeepsLeast.covers_of_covers {whole part : List α}
    (h : KeepsLeast key k whole part) {d : β}
    (hcovers : Covers key k whole d) : Covers key k part d := by
  obtain ⟨_, front, rest, hwhole, hlength, hle, hfront⟩ := h
  have hk := hcovers.length_le
  refine ⟨front, hfront, by omega, ?_⟩
  have hsorted := List.perm_insertionSort (fun a b => key a ≤ key b) front
  have : Std.Total fun a b : α => key a ≤ key b :=
    ⟨fun a b => le_total (key a) (key b)⟩
  have : IsTrans α fun a b => key a ≤ key b := ⟨fun _ _ _ => le_trans⟩
  have hleast : LeastOf key k whole
      (front.insertionSort fun a b => key a ≤ key b) := {
    sorted := List.pairwise_insertionSort _ front
    length_eq := by rw [hsorted.length_eq, hlength]
    rest := ⟨rest, (hsorted.append_right rest).trans hwhole,
      fun a ha b hb => hle a (hsorted.mem_iff.mp ha) b hb⟩ }
  intro a ha
  exact hleast.le_of_covers hcovers (hsorted.mem_iff.mpr ha)

/-- A list of `k` elements at most that covers `d` is full, and none of its
elements is above. -/
theorem Covers.full {kept : List α} {d : β} (h : Covers key k kept d)
    (hle : kept.length ≤ k) : kept.length = k ∧ ∀ a ∈ kept, key a ≤ d := by
  obtain ⟨front, hfront, hlength, hfrontLe⟩ := h
  have hperm := hfront.perm_of_length_le (by omega)
  refine ⟨by rw [← hperm.length_eq, hlength], ?_⟩
  intro a ha
  exact hfrontLe a (hperm.mem_iff.mpr ha)

theorem Covers.congr {key' : α → β} {kept : List α} {d : β}
    (h : Covers key k kept d) (hkey : ∀ a ∈ kept, key' a = key a) :
    Covers key' k kept d := by
  obtain ⟨front, hfront, hlength, hle⟩ := h
  refine ⟨front, hfront, hlength, fun a ha => ?_⟩
  rw [hkey a (hfront.subset ha)]
  exact hle a ha

/-- The parts of several lists, put together. -/
theorem covers_flatten {wholes parts : List (List α)}
    (h : List.Forall₂ (KeepsLeast key k) wholes parts) :
    ∃ dropped, (parts.flatten ++ dropped).Perm wholes.flatten ∧
      ∀ d ∈ dropped, Covers key k parts.flatten (key d) := by
  induction h with
  | nil => exact ⟨[], List.Perm.refl _, by simp⟩
  | @cons whole part wholes parts hfirst hrest ih =>
      obtain ⟨dropped, hperm, hcovers⟩ := hfirst.covers
      obtain ⟨dropped', hperm', hcovers'⟩ := ih
      refine ⟨dropped ++ dropped', ?_, ?_⟩
      · rw [List.flatten_cons, List.flatten_cons]
        refine List.Perm.trans ?_ (hperm.append hperm')
        rw [List.append_assoc, List.append_assoc]
        refine List.Perm.append_left part ?_
        rw [← List.append_assoc, ← List.append_assoc]
        exact List.perm_append_comm.append_right dropped'
      · intro d hd
        rw [List.flatten_cons]
        obtain hd | hd := List.mem_append.mp hd
        · exact (hcovers d hd).mono (List.sublist_append_left _ _).subperm
        · exact (hcovers' d hd).mono (List.sublist_append_right _ _).subperm

end LeastPrefix
