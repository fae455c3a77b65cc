/-!
# Sets of names

A set of names is the list of its members in strictly increasing order, compared character by
character by code point. The order is part of the type, so a set is written in one way only:
two sets with the same members are equal (`NameSet.ext_mem`), and the position of a name in the
list depends on the other members alone and not on when each of them was put in.
-/

namespace Consequence

/-! ## Sorted lists of names -/

/-- Puts a name in its place in a sorted list, which keeps one copy of it. -/
def insertName (name : String) : List String → List String
  | [] => [name]
  | first :: rest =>
    if name = first then name :: rest
    else if name < first then name :: first :: rest
    else first :: insertName name rest

@[simp] theorem mem_insertName {name n : String} {names : List String} :
    n ∈ insertName name names ↔ n = name ∨ n ∈ names := by
  induction names with
  | nil => simp [insertName]
  | cons first rest ih =>
      unfold insertName
      split
      · next h => simp [h]
      · split
        · simp
        · rw [List.mem_cons, List.mem_cons, ih]
          exact or_left_comm

theorem pairwise_insertName (name : String) {names : List String}
    (h : names.Pairwise (· < ·)) : (insertName name names).Pairwise (· < ·) := by
  induction names with
  | nil => exact List.pairwise_singleton ..
  | cons first rest ih =>
      have ⟨hfirst, hrest⟩ := List.pairwise_cons.1 h
      unfold insertName
      split
      · next heq => exact heq ▸ h
      · next hne =>
          split
          · next hlt =>
              refine List.pairwise_cons.2 ⟨fun n hn => ?_, h⟩
              rcases List.mem_cons.1 hn with rfl | hn
              · exact hlt
              · exact String.lt_trans hlt (hfirst n hn)
          · next hlt =>
              refine List.pairwise_cons.2 ⟨fun n hn => ?_, ih hrest⟩
              rcases mem_insertName.1 hn with rfl | hn
              · exact Std.lt_of_le_of_ne (String.not_lt.1 hlt) (Ne.symm hne)
              · exact hfirst n hn

theorem eq_of_mem_iff_of_pairwise : ∀ {s t : List String}, s.Pairwise (· < ·) →
    t.Pairwise (· < ·) → (∀ n, n ∈ s ↔ n ∈ t) → s = t
  | [], [], _, _, _ => rfl
  | [], b :: _, _, _, h => absurd ((h b).2 List.mem_cons_self) (List.not_mem_nil)
  | a :: _, [], _, _, h => absurd ((h a).1 List.mem_cons_self) (List.not_mem_nil)
  | a :: s, b :: t, hs, ht, h => by
      have ⟨has, hs'⟩ := List.pairwise_cons.1 hs
      have ⟨hbt, ht'⟩ := List.pairwise_cons.1 ht
      have hab : a = b := by
        rcases List.mem_cons.1 ((h a).1 List.mem_cons_self) with hab | hat
        · exact hab
        · rcases List.mem_cons.1 ((h b).2 List.mem_cons_self) with hba | hbs
          · exact hba.symm
          · exact absurd (hbt a hat) (String.lt_asymm (has b hbs))
      subst hab
      refine congrArg (a :: ·) (eq_of_mem_iff_of_pairwise hs' ht' fun n => ?_)
      have hn := h n
      rw [List.mem_cons, List.mem_cons] at hn
      constructor
      · intro hns
        rcases hn.1 (.inr hns) with rfl | hnt
        · exact absurd (has n hns) (String.lt_irrefl n)
        · exact hnt
      · intro hnt
        rcases hn.2 (.inr hnt) with rfl | hns
        · exact absurd (hbt n hnt) (String.lt_irrefl n)
        · exact hns

/-! ## The type -/

structure NameSet where
  toList : List String
  sorted : toList.Pairwise (· < ·)
deriving DecidableEq

namespace NameSet

def empty : NameSet := ⟨[], .nil⟩

instance : EmptyCollection NameSet := ⟨empty⟩

instance : Membership String NameSet := ⟨fun s name => name ∈ s.toList⟩

def insert (s : NameSet) (name : String) : NameSet :=
  ⟨insertName name s.toList, pairwise_insertName name s.sorted⟩

def ofList (names : List String) : NameSet :=
  names.foldl insert ∅

def size (s : NameSet) : Nat :=
  s.toList.length

@[simp] theorem mem_toList {s : NameSet} {n : String} : n ∈ s.toList ↔ n ∈ s := Iff.rfl

@[simp] theorem not_mem_empty {n : String} : ¬ n ∈ (∅ : NameSet) := List.not_mem_nil

@[simp] theorem mem_insert {s : NameSet} {name n : String} :
    n ∈ s.insert name ↔ n = name ∨ n ∈ s := mem_insertName

theorem ext_mem {s t : NameSet} (h : ∀ n, n ∈ s ↔ n ∈ t) : s = t := by
  cases s with
  | mk s hs =>
      cases t with
      | mk t ht =>
          congr
          exact eq_of_mem_iff_of_pairwise hs ht h

end NameSet

end Consequence
