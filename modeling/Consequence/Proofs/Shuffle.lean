import Mathlib.Data.List.Forall2
import Mathlib.Data.Nat.Factorial.Basic
import Consequence.Proofs.Enumeration

/-!
# The indices of a shuffle

That a shuffle permutes its list needs nothing of the indices: a swap with an index out of range
does nothing. That there never is such an index is another matter, and it rests on arithmetic.

A chunk is a number below a product of consecutive factors, one for each index that it will give.
Taking an index out divides by the first factor, and what is left is below the product of the
others; so `Draw.Covers`, which says just that, is kept from index to index, and each time a chunk
is used up `below` draws a new one. There the one delicate point is the second word, which may
raise the number by one. It does so only where the two parts cut off add up to a whole, and then
the first part was large enough to leave room (`below_lt`).

So the index at a position is never beyond the position, and a shuffle that looks at every place
before it goes there ends as the shuffle does (`swapAll?_eq`).
-/

namespace Consequence

namespace Random

/-! ## A number below a bound -/

theorem scaled_lt {bound : Nat} (h : 0 < bound) (word : UInt32) :
    word.toNat * bound / UInt32.size < bound :=
  Nat.div_lt_of_lt_mul (Nat.mul_lt_mul_of_pos_right word.toNat_lt_size h)

theorem below_lt {bound : Nat} (h : 0 < bound) (g : Pcg) : (below bound g).1 < bound := by
  unfold below
  simp only
  split
  · split
    · next hcarry =>
        -- Even with the carry, both words come to less than the successor of the first one, scaled.
        have hdiv := Nat.div_add_mod (g.next32.1.toNat * bound) UInt32.size
        have hsecond := scaled_lt h g.next32.2.next32.1
        have hword : (g.next32.1.toNat + 1) * bound ≤ UInt32.size * bound :=
          Nat.mul_le_mul_right bound g.next32.1.toNat_lt_size
        rw [Nat.succ_mul] at hword
        refine Nat.lt_of_mul_lt_mul_left (a := UInt32.size) ?_
        rw [Nat.mul_succ]
        omega
    · exact scaled_lt h _
  · exact scaled_lt h _

/-! ## Chunks -/

/-- The first factor of a rising product, set apart. -/
theorem ascFactorial_succ_left (factor count : Nat) :
    factor.ascFactorial (count + 1) = factor * (factor + 1).ascFactorial count :=
  Nat.ascFactorial_succ.trans (Nat.succ_ascFactorial factor count).symm

/-- The bound of a chunk is a product of consecutive factors. -/
theorem widen_eq (bound factor : Nat) : ∃ count,
    widen bound factor = (bound * factor.ascFactorial count, factor + count) := by
  fun_induction widen bound factor with
  | case1 bound factor _ ih =>
      obtain ⟨count, hcount⟩ := ih
      refine ⟨count + 1, ?_⟩
      rw [hcount, ascFactorial_succ_left, Nat.mul_assoc, Nat.add_right_comm, Nat.add_assoc]
  | case2 bound factor _ => exact ⟨0, by simp⟩

namespace Draw

/-- What is left of the chunk is below the product of the numbers of choices at the positions that
it still serves, the first of which has the given number. A chunk used up covers nothing. -/
def Covers (choices : Nat) (d : Draw) : Prop :=
  0 < d.remaining → d.chunk < choices.ascFactorial d.remaining

variable {choices : Nat}

theorem covers_start (g : Pcg) : (start g).Covers 1 := by
  intro _
  exact Nat.one_pos

theorem covers_refill (h : 0 < choices) (d : Draw) :
    0 < (d.refill choices).remaining ∧ (d.refill choices).Covers choices := by
  obtain ⟨count, hcount⟩ := widen_eq choices (choices + 1)
  have hbound : 0 < choices * (choices + 1).ascFactorial count :=
    Nat.mul_pos h (Nat.ascFactorial_pos choices count)
  have hremaining : (d.refill choices).remaining = count + 1 := by
    rw [refill, hcount]
    show choices + 1 + count - choices = count + 1
    omega
  refine ⟨by omega, fun _ => ?_⟩
  rw [hremaining, ascFactorial_succ_left, refill, hcount]
  exact below_lt hbound _

/-- An index is one of the choices, and what is left covers the positions that follow. -/
theorem index_lt (h : 0 < choices) {d : Draw} (hd : d.Covers choices) :
    (d.index choices).1 < choices ∧ (d.index choices).2.Covers (choices + 1) := by
  obtain ⟨e, he, hpos, hcovers⟩ : ∃ e, (if d.remaining = 0 then d.refill choices else d) = e ∧
      0 < e.remaining ∧ e.Covers choices := by
    split
    · exact ⟨_, rfl, covers_refill h d⟩
    · next hne => exact ⟨d, rfl, Nat.pos_of_ne_zero hne, hd⟩
  have hchunk := hcovers hpos
  unfold index
  simp only [he]
  split
  · next hone =>
      rw [hone, Nat.ascFactorial_succ, Nat.ascFactorial_zero, Nat.add_zero, Nat.mul_one] at hchunk
      exact ⟨hchunk, fun hlast => absurd hlast (Nat.lt_irrefl 0)⟩
  · next hone =>
      refine ⟨Nat.mod_lt _ h, fun _ => ?_⟩
      obtain ⟨rest, hrest⟩ : ∃ rest, e.remaining = rest + 1 := ⟨e.remaining - 1, by omega⟩
      rw [hrest, ascFactorial_succ_left] at hchunk
      rw [hrest]
      exact Nat.div_lt_of_lt_mul hchunk

/-- The indices for consecutive positions, none of them beyond its position. -/
theorem forall₂_indices (count : Nat) : ∀ {position : Nat} {d : Draw}, d.Covers (position + 1) →
    List.Forall₂ (· ≤ ·) (d.indices count (position + 1)) (List.range' position count) := by
  induction count with
  | zero => exact fun _ => .nil
  | succ count ih =>
      intro position d hd
      have ⟨hindex, hrest⟩ := index_lt position.succ_pos hd
      exact .cons (Nat.le_of_lt_succ hindex) (ih hrest)

end Draw

/-! ## Swaps in range -/

/-- Swaps as `swapAll` does, but gives up at a place that is out of range. -/
def swapAll? {α : Type} : (position : Nat) → List Nat → Array α → Option (Array α)
  | _, [], items => some items
  | position, index :: indices, items =>
    if h : position < items.size ∧ index < items.size then
      swapAll? (position + 1) indices (items.swap position index h.1 h.2)
    else
      none

theorem swapAll?_eq {α : Type} {indices : List Nat} : ∀ {position count : Nat} {items : Array α},
    position + count = items.size → List.Forall₂ (· ≤ ·) indices (List.range' position count) →
    swapAll? position indices items = some (swapAll position indices items) := by
  induction indices with
  | nil => exact fun _ _ => rfl
  | cons index indices ih =>
      intro position count items hsize hindices
      cases count with
      | zero => cases hindices
      | succ count =>
          obtain ⟨hindex, hrest⟩ := List.forall₂_cons.1 hindices
          have hposition : position < items.size := by omega
          have hrange : index < items.size := Nat.lt_of_le_of_lt hindex hposition
          rw [swapAll?, dif_pos ⟨hposition, hrange⟩, swapAll, Array.swapIfInBounds,
            dif_pos hposition, dif_pos hrange]
          exact ih (by rw [Array.size_swap]; omega) hrest

/-! ## A shuffle -/

section

variable (g : Pcg)

/-- The indices that a shuffle draws, one for each position of its list. -/
def shuffleIndices (length : Nat) : List Nat :=
  (Draw.start g).indices length 1

/-- No index is beyond its position. -/
theorem forall₂_shuffleIndices (length : Nat) :
    List.Forall₂ (· ≤ ·) (shuffleIndices g length) (List.range length) := by
  rw [List.range_eq_range']
  exact Draw.forall₂_indices length (Draw.covers_start g)

/-- Every swap of a shuffle finds both its places. -/
theorem swapAll?_shuffleIndices {α : Type} (items : List α) :
    swapAll? 0 (shuffleIndices g items.length) items.toArray =
      some (shuffle items g).toArray := by
  have hindices := forall₂_shuffleIndices g items.length
  rw [List.range_eq_range'] at hindices
  exact swapAll?_eq (by rw [List.size_toArray, Nat.zero_add]) hindices

end

end Random

/-- The split order has every name of the set once and no other. Unshuffled it ascends strictly.
Shuffled, with whatever seed, it is a permutation of the set that comes of swaps in range: there
is an index for each position, none of them beyond it, so each swap finds both its places. -/
theorem splitOrder_in_range (names : NameSet) (config : Config) :
    (splitOrder names config).Nodup ∧ (∀ n, n ∈ splitOrder names config ↔ n ∈ names) ∧
    match config.symbolOrder.value with
    | .lexicographic => (splitOrder names config).Pairwise (· < ·)
    | .shuffled =>
      (splitOrder names config).Perm names.toList ∧
      List.Forall₂ (· ≤ ·) (Random.shuffleIndices (.ofSeed config.seed.value) names.size)
        (List.range names.size) ∧
      Random.swapAll? 0 (Random.shuffleIndices (.ofSeed config.seed.value) names.size)
        names.toList.toArray = some (splitOrder names config).toArray := by
  refine ⟨nodup_splitOrder names config, fun n => mem_splitOrder, ?_⟩
  have hperm := splitOrder_perm names config
  unfold splitOrder at hperm ⊢
  cases horder : config.symbolOrder.value with
  | lexicographic => exact names.sorted
  | shuffled =>
      rw [horder] at hperm
      exact ⟨hperm, Random.forall₂_shuffleIndices _ names.size,
        Random.swapAll?_shuffleIndices _ names.toList⟩

end Consequence
