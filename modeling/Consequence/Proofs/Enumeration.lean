import Mathlib.Algebra.Ring.Nat
import Consequence.Proofs.Truth
import Consequence.SplitOrder

/-!
# The valuations of a set of names

A search splits on the names of a set one after the other. This file says what there is to be
searched, without a search: in which order the names come, and which valuations of them there
are.

The order is a permutation of the set whatever the configuration, because shuffling a list does
nothing but swap its members. The valuations are listed by `Model.extensions`, the first name
slowest and each name true before false; `mem_extensions` says that none is missing and
`pairwise_extensions` that the list ascends in the lexicographic order of its rows, so each of
them is there once. A forked search covers the list in blocks of one size, which is what `cut`
makes of it.
-/

namespace Consequence

/-! ## The order of the names -/

theorem nodup_of_pairwise_lt {names : List String} (h : names.Pairwise (· < ·)) :
    names.Nodup := by
  show names.Pairwise (· ≠ ·)
  refine h.imp fun {n n'} hlt heq => ?_
  exact String.lt_irrefl n' (heq ▸ hlt)

namespace Random

variable {α : Type}

theorem swapIfInBounds_perm (items : Array α) (i j : Nat) :
    (items.swapIfInBounds i j).Perm items := by
  unfold Array.swapIfInBounds
  split
  · split
    · exact Array.swap_perm _ _
    · exact .refl _
  · exact .refl _

theorem swapAll_perm (indices : List Nat) : ∀ (position : Nat) (items : Array α),
    (swapAll position indices items).Perm items := by
  induction indices with
  | nil => exact fun _ items => .refl items
  | cons index indices ih =>
      intro position items
      exact (ih (position + 1) _).trans (swapIfInBounds_perm items position index)

theorem shuffle_perm (items : List α) (g : Pcg) : (shuffle items g).Perm items :=
  (swapAll_perm _ 0 items.toArray).toList

end Random

theorem splitOrder_perm (names : NameSet) (config : Config) :
    (splitOrder names config).Perm names.toList := by
  unfold splitOrder
  split
  · exact .refl _
  · exact Random.shuffle_perm _ _

theorem mem_splitOrder {names : NameSet} {config : Config} {n : String} :
    n ∈ splitOrder names config ↔ n ∈ names :=
  (splitOrder_perm names config).mem_iff

theorem nodup_splitOrder (names : NameSet) (config : Config) :
    (splitOrder names config).Nodup :=
  (splitOrder_perm names config).nodup_iff.2 (nodup_of_pairwise_lt names.sorted)

theorem length_splitOrder (names : NameSet) (config : Config) :
    (splitOrder names config).length = names.size :=
  (splitOrder_perm names config).length_eq

/-! ## Models are their values -/

namespace Model

/-- The assignment that a model stands for; a name without a value counts as false. -/
def assignment (m : Model) : Assignment :=
  fun n => (m.value? n).getD false

theorem value?_eq_some_assignment {m : Model} {n : String} (h : (m.value? n).isSome) :
    m.value? n = some (m.assignment n) := by
  obtain ⟨value, hvalue⟩ := Option.isSome_iff_exists.1 h
  rw [assignment, hvalue, Option.getD_some]

/-- A model that gives a value to every name that a sentence mentions settles the sentence. -/
theorem evaluate_value? {m : Model} {p : Sentence} (h : ∀ n, p.Mentions n → (m.value? n).isSome) :
    p.evaluate m.value? = .ok (p.truth m.assignment) :=
  Sentence.evaluate_eq_truth fun n hn => value?_eq_some_assignment (h n hn)

theorem isSome_lookup_iff {n : String} {entries : List (String × Bool)} :
    (entries.lookup n).isSome ↔ n ∈ entries.map Prod.fst := by
  induction entries with
  | nil => simp
  | cons entry rest ih =>
      rw [List.lookup_cons, List.map_cons, List.mem_cons]
      split
      · next h => simp [eq_of_beq h]
      · next h =>
          have hne : n ≠ entry.1 := fun heq => absurd (beq_iff_eq.2 heq) (by simp [h])
          simp [ih, hne]

@[simp] theorem mem_domain {m : Model} {n : String} : n ∈ m.domain ↔ (m.value? n).isSome :=
  isSome_lookup_iff.symm

/-- Entries without a repeated name can be read back off their names. -/
theorem map_lookup_eq {entries : List (String × Bool)} (h : (entries.map Prod.fst).Nodup) :
    (entries.map Prod.fst).map (fun n => (n, (entries.lookup n).getD false)) = entries := by
  induction entries with
  | nil => rfl
  | cons entry rest ih =>
      have ⟨hentry, hrest⟩ := List.nodup_cons.1 h
      rw [List.map_cons, List.map_cons, List.lookup_cons_self, Option.getD_some]
      refine congrArg (entry :: ·) (Eq.trans (List.map_congr_left fun n hn => ?_) (ih hrest))
      have hne : (n == entry.1) = false := beq_false_of_ne fun heq => hentry (heq ▸ hn)
      rw [List.lookup_cons, hne]

theorem ext_value? {m m' : Model} (h : ∀ n, m.value? n = m'.value? n) : m = m' := by
  have hdomain : m.domain = m'.domain := NameSet.ext_mem fun n => by
    rw [mem_domain, mem_domain, h]
  have hnames : m.entries.map Prod.fst = m'.entries.map Prod.fst :=
    congrArg NameSet.toList hdomain
  have hentries : m.entries = m'.entries := by
    rw [← map_lookup_eq (nodup_of_pairwise_lt m.sorted),
      ← map_lookup_eq (nodup_of_pairwise_lt m'.sorted), hnames]
    refine List.map_congr_left fun n _ => ?_
    exact congrArg (fun value : Option Bool => (n, value.getD false)) (h n)
  cases m
  cases m'
  cases hentries
  rfl

/-! ## All valuations of some names -/

/-- The models that extend `m` by a value for each name in `order`, listed with the first name
slowest and true before false. -/
def extensions : List String → Model → List Model
  | [], m => [m]
  | name :: order, m =>
    extensions order (m.insert name true) ++ extensions order (m.insert name false)

theorem length_extensions (order : List String) : ∀ m : Model,
    (extensions order m).length = 2 ^ order.length := by
  induction order with
  | nil => exact fun _ => rfl
  | cons name order ih =>
      intro m
      rw [extensions, List.length_append, ih, ih, List.length_cons, Nat.pow_succ]
      omega

theorem value?_of_mem_extensions {n : String} {order : List String} (hn : n ∉ order) :
    ∀ {m m' : Model}, m' ∈ extensions order m → m'.value? n = m.value? n := by
  induction order with
  | nil =>
      intro m m' h
      rw [List.mem_singleton.1 h]
  | cons name order ih =>
      intro m m' h
      have hname : n ≠ name := fun heq => hn (heq ▸ List.mem_cons_self)
      have hrest : n ∉ order := fun h => hn (List.mem_cons_of_mem name h)
      rcases List.mem_append.1 h with h | h <;>
        rw [ih hrest h, value?_insert, if_neg hname]

theorem isSome_value?_of_mem_extensions {n : String} {order : List String} : ∀ {m m' : Model},
    m' ∈ extensions order m → n ∈ order ∨ (m.value? n).isSome → (m'.value? n).isSome := by
  induction order with
  | nil =>
      intro m m' h hn
      rw [List.mem_singleton.1 h]
      exact hn.resolve_left List.not_mem_nil
  | cons name order ih =>
      intro m m' h hn
      have hinsert : ∀ value, n ∈ order ∨ ((m.insert name value).value? n).isSome := by
        intro value
        rw [value?_insert]
        split
        · exact .inr rfl
        · next hname => exact hn.imp (fun h => (List.mem_cons.1 h).resolve_left hname) id
      rcases List.mem_append.1 h with h | h
      · exact ih h (hinsert true)
      · exact ih h (hinsert false)

/-- Whatever values are asked for, one of the extensions has them. -/
theorem exists_mem_extensions (a : Assignment) (order : List String) : ∀ m : Model,
    ∃ m' ∈ extensions order m, ∀ n ∈ order, m'.value? n = some (a n) := by
  induction order with
  | nil => exact fun m => ⟨m, List.mem_singleton.2 rfl, nofun⟩
  | cons name order ih =>
      intro m
      obtain ⟨m', hmem, hvalues⟩ := ih (m.insert name (a name))
      refine ⟨m', ?_, fun n hn => ?_⟩
      · rw [extensions, List.mem_append]
        cases h : a name with
        | true => exact .inl (h ▸ hmem)
        | false => exact .inr (h ▸ hmem)
      · by_cases hrest : n ∈ order
        · exact hvalues n hrest
        · have hname : n = name := (List.mem_cons.1 hn).resolve_right hrest
          rw [value?_of_mem_extensions hrest hmem, value?_insert, if_pos hname, hname]

/-- The extensions of a model by some names are the models that value these names, and leave
the others as they were. -/
theorem mem_extensions {order : List String} {m m' : Model} :
    m' ∈ extensions order m ↔
      (∀ n ∈ order, (m'.value? n).isSome) ∧ ∀ n ∉ order, m'.value? n = m.value? n := by
  constructor
  · intro h
    exact ⟨fun n hn => isSome_value?_of_mem_extensions h (.inl hn),
      fun n hn => value?_of_mem_extensions hn h⟩
  · rintro ⟨hin, hout⟩
    obtain ⟨m'', hmem, hvalues⟩ := exists_mem_extensions m'.assignment order m
    have heq : m'' = m' := ext_value? fun n => by
      by_cases hn : n ∈ order
      · rw [hvalues n hn, value?_eq_some_assignment (hin n hn)]
      · rw [value?_of_mem_extensions hn hmem, hout n hn]
    exact heq ▸ hmem

theorem mem_extensions_empty {names : NameSet} {order : List String}
    (horder : ∀ n, n ∈ order ↔ n ∈ names) {m : Model} :
    m ∈ extensions order empty ↔ m.domain = names := by
  rw [mem_extensions]
  constructor
  · rintro ⟨hin, hout⟩
    refine NameSet.ext_mem fun n => ?_
    rw [mem_domain, ← horder n]
    constructor
    · intro h
      by_cases hn : n ∈ order
      · exact hn
      · rw [hout n hn] at h
        cases h
    · exact hin n
  · rintro rfl
    refine ⟨fun n hn => mem_domain.1 ((horder n).1 hn), fun n hn => ?_⟩
    rw [horder, mem_domain] at hn
    simpa using hn

/-- As far as some names go, an assignment is a model of these names and no others. -/
theorem exists_domain_eq (a : Assignment) (names : NameSet) :
    ∃ m : Model, m.domain = names ∧ ∀ n ∈ names, m.assignment n = a n := by
  obtain ⟨m, hmem, hvalues⟩ := exists_mem_extensions a names.toList .empty
  refine ⟨m, (mem_extensions_empty fun _ => Iff.rfl).1 hmem, fun n hn => ?_⟩
  rw [assignment, hvalues n hn, Option.getD_some]

/-! ## The order of the list -/

/-- The first model comes before the second: at the first name, along `order`, on which they
differ, the first is true and the second is false. -/
def Precedes : List String → Model → Model → Prop
  | [], _, _ => False
  | name :: order, m, m' =>
    (m.value? name = some true ∧ m'.value? name = some false)
      ∨ (m.value? name = m'.value? name ∧ Precedes order m m')

theorem not_precedes_self (order : List String) (m : Model) : ¬ Precedes order m m := by
  induction order with
  | nil => exact id
  | cons name order ih =>
      rintro (⟨htrue, hfalse⟩ | ⟨-, hrest⟩)
      · rw [htrue] at hfalse
        cases hfalse
      · exact ih hrest

/-- A list that ascends strictly has no model twice. -/
theorem nodup_of_pairwise_precedes {order : List String} {models : List Model}
    (h : models.Pairwise (Precedes order)) : models.Nodup := by
  show models.Pairwise (· ≠ ·)
  refine h.imp fun {m m'} hlt heq => ?_
  exact not_precedes_self order m' (heq ▸ hlt)

theorem pairwise_extensions {order : List String} (h : order.Nodup) : ∀ m : Model,
    (extensions order m).Pairwise (Precedes order) := by
  induction order with
  | nil => exact fun _ => List.pairwise_singleton ..
  | cons name order ih =>
      intro m
      have ⟨hname, horder⟩ := List.nodup_cons.1 h
      have hvalue : ∀ {value : Bool} {m' : Model},
          m' ∈ extensions order (m.insert name value) → m'.value? name = some value := by
        intro value m' hmem
        rw [value?_of_mem_extensions hname hmem, value?_insert, if_pos rfl]
      have hhalf : ∀ value : Bool,
          (extensions order (m.insert name value)).Pairwise (Precedes (name :: order)) := by
        intro value
        refine (ih horder _).imp_of_mem fun hm hm' hlt => .inr ⟨?_, hlt⟩
        rw [hvalue hm, hvalue hm']
      refine List.pairwise_append.2 ⟨hhalf true, hhalf false, fun m hm m' hm' => ?_⟩
      exact .inl ⟨hvalue hm, hvalue hm'⟩

theorem nodup_extensions {order : List String} (h : order.Nodup) (m : Model) :
    (extensions order m).Nodup :=
  nodup_of_pairwise_precedes (pairwise_extensions h m)

/-- Along another order of the names the same valuations are listed. -/
theorem extensions_perm {order order' : List String} (h : order.Perm order') (hnodup : order.Nodup)
    (m : Model) : (extensions order m).Perm (extensions order' m) := by
  refine (List.perm_ext_iff_of_nodup (nodup_extensions hnodup m)
    (nodup_extensions (h.nodup_iff.1 hnodup) m)).2 fun m' => ?_
  simp only [mem_extensions, h.mem_iff]

end Model

/-! ## Blocks -/

/-- So many consecutive blocks of one size, from the front of a list. -/
def cut {α : Type} (size : Nat) : (count : Nat) → List α → List (List α)
  | 0, _ => []
  | count + 1, items => items.take size :: cut size count (items.drop size)

section

variable {α : Type} {size : Nat}

theorem length_cut (count : Nat) : ∀ items : List α, (cut size count items).length = count := by
  induction count with
  | zero => exact fun _ => rfl
  | succ count ih =>
      intro items
      rw [cut, List.length_cons, ih]

theorem cut_append {count : Nat} (more : Nat) : ∀ {items : List α} (rest : List α),
    items.length = count * size →
    cut size (count + more) (items ++ rest) = cut size count items ++ cut size more rest := by
  induction count with
  | zero =>
      intro items rest h
      have hnil : items = [] := List.eq_nil_of_length_eq_zero (by omega)
      rw [hnil, Nat.zero_add, cut, List.nil_append, List.nil_append]
  | succ count ih =>
      intro items rest h
      rw [Nat.succ_mul] at h
      have hdrop : (items.drop size).length = count * size := by
        rw [List.length_drop]
        omega
      rw [Nat.succ_add, cut, cut, List.take_append_of_le_length (by omega),
        List.drop_append_of_le_length (by omega), ih rest hdrop, List.cons_append]

theorem flatten_cut {count : Nat} : ∀ {items : List α}, items.length = count * size →
    (cut size count items).flatten = items := by
  induction count with
  | zero =>
      intro items h
      exact (List.eq_nil_of_length_eq_zero (by omega)).symm
  | succ count ih =>
      intro items h
      rw [Nat.succ_mul] at h
      rw [cut, List.flatten_cons, ih (by rw [List.length_drop]; omega), List.take_append_drop]

theorem length_of_mem_cut {count : Nat} {block : List α} : ∀ {items : List α},
    items.length = count * size → block ∈ cut size count items → block.length = size := by
  induction count with
  | zero => exact fun _ h => absurd h List.not_mem_nil
  | succ count ih =>
      intro items h hblock
      rw [Nat.succ_mul] at h
      rcases List.mem_cons.1 hblock with rfl | hblock
      · rw [List.length_take]
        omega
      · exact ih (by rw [List.length_drop]; omega) hblock

/-- Blocks of size one. -/
theorem cut_one (items : List α) : cut 1 items.length items = items.map ([·]) := by
  induction items with
  | nil => rfl
  | cons a items ih =>
      show [a] :: cut 1 items.length items = [a] :: items.map ([·])
      rw [ih]

end

end Consequence
