import Mathlib.Data.Set.Function
import Consequence.Proofs.Models
import Consequence.Proofs.Report

/-!
# Other names

A name counts for what it is compared with. Sentences look a name up and sets put it in order, and
neither looks at the characters otherwise; a shuffle does not look at names at all, it moves what
stands at a place (`shuffle_map`). So new names may be given to the symbols of a question.
`examine_rename` says what that changes.

If the new names are different from one another wherever the old ones are, the question is the
same: truth is carried over from one assignment to another (`truth_rename`), and with it the answer,
the report and the number of models. The work may be another, because it depends on the order of
splits, and so on the order of the names.

If the new names stand in the same order as the old ones, nothing changes at all. The list of all
valuations becomes the list of the renamed valuations, place by place (`extensions_rename`), and
what is read off the list is read off at the same places.

A renaming is asked about the symbols of the question only. What it does to other symbols is left
open, and it may well give them names that are already in use.
-/

namespace Consequence

/-! ## Renamings -/

/-- A new name for every symbol. -/
abbrev Renaming := Symbol → Symbol

namespace Renaming

/-- The new name for a name. A text that is no name stays as it is. -/
def name (f : Renaming) (n : String) : String :=
  if h : IsName n.toList then (f ⟨n, h⟩).name else n

/-- Symbols of the set that differ are given names that differ. -/
def Separates (f : Renaming) (names : NameSet) : Prop :=
  ∀ s t : Symbol, s.name ∈ names → t.name ∈ names → f s = f t → s = t

/-- The new names stand in the order of the old ones. -/
def KeepsOrder (f : Renaming) (names : NameSet) : Prop :=
  ∀ s t : Symbol, s.name ∈ names → t.name ∈ names → s.name < t.name → (f s).name < (f t).name

section

variable {f : Renaming} {names names' : NameSet}

theorem name_symbol (f : Renaming) (s : Symbol) : f.name s.name = (f s).name :=
  dif_pos s.isName

theorem KeepsOrder.mono (h : f.KeepsOrder names) (hnames : ∀ n ∈ names', n ∈ names) :
    f.KeepsOrder names' :=
  fun s t hs ht => h s t (hnames _ hs) (hnames _ ht)

theorem Separates.mono (h : f.Separates names) (hnames : ∀ n ∈ names', n ∈ names) :
    f.Separates names' :=
  fun s t hs ht => h s t (hnames _ hs) (hnames _ ht)

theorem KeepsOrder.separates (h : f.KeepsOrder names) : f.Separates names := by
  intro s t hs ht heq
  by_contra hne
  have hname : s.name ≠ t.name := fun hname => hne (Symbol.ext_name hname)
  by_cases hlt : s.name < t.name
  · exact String.lt_irrefl _ (heq ▸ h s t hs ht hlt)
  · have hlt' : t.name < s.name := Std.lt_of_le_of_ne (String.not_lt.1 hlt) hname.symm
    exact String.lt_irrefl _ (heq ▸ h t s ht hs hlt')

theorem Separates.injOn (h : f.Separates names) (hnames : ∀ n ∈ names, IsName n.toList) :
    Set.InjOn f.name {n | n ∈ names} := by
  intro n hn n' hn' heq
  have hsymbol := f.name_symbol ⟨n, hnames n hn⟩
  have hsymbol' := f.name_symbol ⟨n', hnames n' hn'⟩
  have hnew := Symbol.ext_name (hsymbol.symm.trans (heq.trans hsymbol'))
  exact congrArg Symbol.name (h ⟨n, hnames n hn⟩ ⟨n', hnames n' hn'⟩ hn hn' hnew)

theorem KeepsOrder.lt (h : f.KeepsOrder names) (hnames : ∀ n ∈ names, IsName n.toList)
    {n n' : String} (hn : n ∈ names) (hn' : n' ∈ names) (hlt : n < n') : f.name n < f.name n' := by
  have hlt' := h ⟨n, hnames n hn⟩ ⟨n', hnames n' hn'⟩ hn hn' hlt
  rwa [← f.name_symbol, ← f.name_symbol] at hlt'

end

end Renaming

/-! ## Renamed sentences -/

namespace Sentence

mutual

def rename (f : Renaming) : Sentence → Sentence
  | .symbol s => .symbol (f s)
  | .neg p => .neg (p.rename f)
  | .conj parts => .conj (renameAll f parts)
  | .disj parts => .disj (renameAll f parts)
  | .imp p q => .imp (p.rename f) (q.rename f)
  | .iff p q => .iff (p.rename f) (q.rename f)

def renameAll (f : Renaming) : List Sentence → List Sentence
  | [] => []
  | p :: parts => p.rename f :: renameAll f parts

end

section

variable (f : Renaming)

theorem renameAll_eq_map (parts : List Sentence) : renameAll f parts = parts.map (rename f) := by
  induction parts with
  | nil => rfl
  | cons p parts ih => rw [renameAll, List.map_cons, ih]

/-- Under the new names a sentence says what it said under the old ones. -/
theorem truth_rename (a : Assignment) (p : Sentence) :
    (p.rename f).truth a = p.truth fun n => a (f.name n) := by
  induction p with
  | symbol s => rw [rename, truth, truth, f.name_symbol]
  | neg p ih => rw [rename, truth, truth, ih]
  | conj parts ih =>
      rw [rename, renameAll_eq_map, truth_conj, truth_conj, List.all_map, Bool.eq_iff_iff,
        List.all_eq_true, List.all_eq_true]
      exact forall₂_congr fun p hp => by rw [Function.comp_apply, ih p hp]
  | disj parts ih =>
      rw [rename, renameAll_eq_map, truth_disj, truth_disj, List.any_map, Bool.eq_iff_iff,
        List.any_eq_true, List.any_eq_true]
      exact exists_congr fun p => and_congr_right fun hp => by rw [Function.comp_apply, ih p hp]
  | imp p q ihp ihq => rw [rename, truth, truth, ihp, ihq]
  | iff p q ihp ihq => rw [rename, truth, truth, ihp, ihq]

variable {n : String}

theorem exists_mentions_map {parts : List Sentence}
    (h : ∀ p ∈ parts, ((p.rename f).Mentions n ↔ ∃ n', p.Mentions n' ∧ f.name n' = n)) :
    (∃ q ∈ parts.map (rename f), q.Mentions n) ↔
      ∃ n', (∃ p ∈ parts, p.Mentions n') ∧ f.name n' = n := by
  constructor
  · rintro ⟨q, hq, hn⟩
    obtain ⟨p, hp, rfl⟩ := List.mem_map.1 hq
    obtain ⟨n', hn', hname⟩ := (h p hp).1 hn
    exact ⟨n', ⟨p, hp, hn'⟩, hname⟩
  · rintro ⟨n', ⟨p, hp, hn'⟩, hname⟩
    exact ⟨p.rename f, List.mem_map_of_mem hp, (h p hp).2 ⟨n', hn', hname⟩⟩

/-- A renamed sentence mentions the new names of what it mentioned before. -/
theorem mentions_rename {p : Sentence} :
    (p.rename f).Mentions n ↔ ∃ n', p.Mentions n' ∧ f.name n' = n := by
  induction p with
  | symbol s => simp [rename, f.name_symbol, eq_comm]
  | neg p ih => rw [rename, mentions_neg, ih]; simp
  | conj parts ih =>
      rw [rename, renameAll_eq_map, mentions_conj, exists_mentions_map f ih]
      simp
  | disj parts ih =>
      rw [rename, renameAll_eq_map, mentions_disj, exists_mentions_map f ih]
      simp
  | imp p q ihp ihq => simp [rename, ihp, ihq, or_and_right, exists_or]
  | iff p q ihp ihq => simp [rename, ihp, ihq, or_and_right, exists_or]

end

/-- What the sentence mentions are names. -/
theorem isName_of_mem_symbols {p : Sentence} : ∀ n ∈ p.symbols, IsName n.toList :=
  fun _ hn => (mem_symbols.1 hn).isName

section

variable {f : Renaming} {p : Sentence}

theorem mem_map_symbols {n : String} :
    n ∈ p.symbols.toList.map f.name ↔ n ∈ (p.rename f).symbols := by
  rw [List.mem_map, mem_symbols, mentions_rename]
  simp

/-- Where the order is kept, the symbols of the renamed sentence are the new names, one by one. -/
theorem symbols_rename_of_keepsOrder (h : f.KeepsOrder p.symbols) :
    (p.rename f).symbols.toList = p.symbols.toList.map f.name := by
  refine eq_of_mem_iff_of_pairwise (p.rename f).symbols.sorted ?_ fun n => mem_map_symbols.symm
  rw [List.pairwise_map]
  exact p.symbols.sorted.imp_of_mem fun hn hn' hlt => h.lt isName_of_mem_symbols hn hn' hlt

theorem symbols_rename_perm (h : f.Separates p.symbols) :
    (p.rename f).symbols.toList.Perm (p.symbols.toList.map f.name) := by
  have hsymbols : p.symbols.toList.Nodup := nodup_of_pairwise_lt p.symbols.sorted
  have hnew : (p.symbols.toList.map f.name).Nodup :=
    hsymbols.map_on fun n hn n' hn' heq => h.injOn isName_of_mem_symbols hn hn' heq
  exact (List.perm_ext_iff_of_nodup (nodup_of_pairwise_lt (p.rename f).symbols.sorted) hnew).2
    fun n => mem_map_symbols.symm

end

end Sentence

/-! ## Renamed models -/

namespace Model

/-- The model with a new name in the place of each. Of names that become one, the first counts. -/
def rename (g : String → String) (m : Model) : Model :=
  m.entries.foldr (fun entry renamed => renamed.insert (g entry.1) entry.2) .empty

section

variable {g : String → String}

theorem value?_rename_eq_lookup (m : Model) (n : String) :
    (m.rename g).value? n = (m.entries.map fun entry => (g entry.1, entry.2)).lookup n := by
  rw [rename]
  induction m.entries with
  | nil => rfl
  | cons entry rest ih =>
      rw [List.foldr_cons, value?_insert, ih, List.map_cons, List.lookup_cons]
      by_cases h : n = g entry.1
      · simp [h]
      · rw [if_neg h, beq_false_of_ne h]

theorem lookup_map_eq {n : String} {entries : List (String × Bool)}
    (h : ∀ n' ∈ entries.map Prod.fst, g n' = g n → n' = n) :
    (entries.map fun entry => (g entry.1, entry.2)).lookup (g n) = entries.lookup n := by
  induction entries with
  | nil => rfl
  | cons entry rest ih =>
      obtain ⟨hentry, hrest⟩ := List.forall_mem_cons.1 h
      rw [List.map_cons, List.lookup_cons, List.lookup_cons, ih hrest]
      by_cases heq : n = entry.1
      · simp [heq]
      · have hne : g n ≠ g entry.1 := fun hg => heq (hentry hg.symm).symm
        rw [beq_false_of_ne heq, beq_false_of_ne hne]

variable {names : Set String} {m : Model} {n : String}

/-- The renamed model gives to the new name what the model gave to the old one. -/
theorem value?_rename (hg : Set.InjOn g names) (hm : ∀ n ∈ m.domain, n ∈ names)
    (hn : n ∈ names) : (m.rename g).value? (g n) = m.value? n := by
  rw [value?_rename_eq_lookup]
  exact lookup_map_eq fun n' hn' heq => hg (hm n' hn') hn heq

theorem value?_rename_eq_none (h : ∀ n' ∈ m.domain, g n' ≠ n) : (m.rename g).value? n = none := by
  rw [value?_rename_eq_lookup, ← Option.not_isSome_iff_eq_none, isSome_lookup_iff, List.map_map]
  intro hmem
  obtain ⟨entry, hentry, heq⟩ := List.mem_map.1 hmem
  exact h entry.1 (List.mem_map_of_mem hentry) heq

theorem mem_domain_insert {name : String} {value : Bool} :
    n ∈ (m.insert name value).domain ↔ n = name ∨ n ∈ m.domain := by
  rw [mem_domain, mem_domain, value?_insert]
  split
  · next h => simp [h]
  · next h => simp [h]

theorem forall_mem_domain_insert (hm : ∀ n ∈ m.domain, n ∈ names) {name : String}
    (hname : name ∈ names) (value : Bool) : ∀ n ∈ (m.insert name value).domain, n ∈ names := by
  intro n hn
  rcases mem_domain_insert.1 hn with rfl | hn
  · exact hname
  · exact hm n hn

theorem rename_insert (hg : Set.InjOn g names) (hm : ∀ n ∈ m.domain, n ∈ names) {name : String}
    (hname : name ∈ names) (value : Bool) :
    (m.insert name value).rename g = (m.rename g).insert (g name) value := by
  have hinsert := forall_mem_domain_insert hm hname value
  refine ext_value? fun n => ?_
  rw [value?_insert]
  by_cases hn : ∃ n' ∈ names, g n' = n
  · obtain ⟨n', hn', rfl⟩ := hn
    rw [value?_rename hg hinsert hn', value?_rename hg hm hn', value?_insert]
    simp only [hg.eq_iff hn' hname]
  · have hnew : ∀ n' ∈ names, g n' ≠ n := fun n' hn' heq => hn ⟨n', hn', heq⟩
    rw [value?_rename_eq_none fun n' hn' => hnew n' (hinsert n' hn'),
      value?_rename_eq_none fun n' hn' => hnew n' (hm n' hn'), if_neg (hnew name hname).symm]

/-- The valuations of the new names are the renamed valuations, in the same order. -/
theorem extensions_rename (hg : Set.InjOn g names) {order : List String}
    (horder : ∀ n ∈ order, n ∈ names) : ∀ {m : Model}, (∀ n ∈ m.domain, n ∈ names) →
    extensions (order.map g) (m.rename g) = (extensions order m).map (rename g) := by
  induction order with
  | nil => exact fun _ => rfl
  | cons name order ih =>
      intro m hm
      obtain ⟨hname, horder⟩ := List.forall_mem_cons.1 horder
      have hinsert := forall_mem_domain_insert hm hname
      rw [List.map_cons, extensions, extensions, List.map_append, ← rename_insert hg hm hname,
        ← rename_insert hg hm hname, ih horder (hinsert true), ih horder (hinsert false)]

end

end Model

/-! ## A shuffle moves places -/

namespace Random

variable {α β : Type} (f : α → β)

theorem swapIfInBounds_map (items : Array α) (i j : Nat) :
    (items.map f).swapIfInBounds i j = (items.swapIfInBounds i j).map f := by
  refine Array.ext (by simp) fun k hk hk' => ?_
  simp only [Array.getElem_swapIfInBounds, Array.getElem_map, Array.size_map]
  split
  · rfl
  · split
    · rfl
    · rfl

theorem swapAll_map (indices : List Nat) : ∀ (position : Nat) (items : Array α),
    swapAll position indices (items.map f) = (swapAll position indices items).map f := by
  induction indices with
  | nil => exact fun _ _ => rfl
  | cons index indices ih =>
      intro position items
      rw [swapAll, swapAll, swapIfInBounds_map, ih]

/-- The indices are drawn by the length of the list, so what it holds can be replaced before the
shuffle or after it. -/
theorem shuffle_map (items : List α) (g : Pcg) :
    shuffle (items.map f) g = (shuffle items g).map f := by
  rw [shuffle, shuffle, List.length_map, ← List.map_toArray, swapAll_map, Array.toList_map]

end Random

theorem splitOrder_map {f : String → String} {names names' : NameSet}
    (h : names'.toList = names.toList.map f) (config : Config) :
    splitOrder names' config = (splitOrder names config).map f := by
  rw [splitOrder, splitOrder, h]
  cases config.symbolOrder.value with
  | lexicographic => rfl
  | shuffled => exact Random.shuffle_map f names.toList _

/-! ## The same question -/

open Sentence

section

variable {f : Renaming} {knowledge query : Sentence}

theorem Sentence.admits_rename (h : f.Separates (jointSymbols knowledge query)) (value : Bool) :
    (knowledge.rename f).Admits (query.rename f) value ↔ knowledge.Admits query value := by
  constructor
  · rintro ⟨a, hknowledge, hquery⟩
    rw [truth_rename] at hknowledge hquery
    exact ⟨_, hknowledge, hquery⟩
  · rintro ⟨a, hknowledge, hquery⟩
    -- An assignment of the new names is read back through the old ones.
    have hleft := (h.injOn (isName_of_mem_symbols (p := .imp knowledge query))).leftInvOn_invFunOn
    refine ⟨fun n => a (Function.invFunOn f.name {n | n ∈ jointSymbols knowledge query} n), ?_, ?_⟩
    · rw [truth_rename, ← hknowledge]
      exact truth_congr fun n hn => congrArg a (hleft (mem_jointSymbols.2 (.inl hn)))
    · rw [truth_rename, ← hquery]
      exact truth_congr fun n hn => congrArg a (hleft (mem_jointSymbols.2 (.inr hn)))

theorem Sentence.entails_rename (h : f.Separates (jointSymbols knowledge query)) :
    (knowledge.rename f).Entails (query.rename f) ↔ knowledge.Entails query := by
  rw [Entails, Entails, forall_truth_eq_iff, forall_truth_eq_iff, admits_rename h]

theorem entailed_rename (h : f.Separates (jointSymbols knowledge query)) {config : Config}
    {e e' : Examination} (he : examine knowledge query config = .ok e)
    (he' : examine (knowledge.rename f) (query.rename f) config = .ok e') :
    e'.entailed = e.entailed := by
  have hentails := entails_rename h
  rw [← entails_eq_ok_true_iff, ← entails_eq_ok_true_iff, entails_of_examine he,
    entails_of_examine he', Except.ok.injEq, Except.ok.injEq] at hentails
  exact Bool.eq_iff_iff.2 hentails

theorem Report.describes_rename (h : f.Separates (jointSymbols knowledge query)) {r : Report} :
    r.Describes (knowledge.rename f) (query.rename f) ↔ r.Describes knowledge query := by
  rw [describes_iff, describes_iff]
  simp only [Sentence.admits_rename h]

end

/-! ## The same examination -/

section

variable {α β : Type} {f : α → β} {p : α → Bool} {q : β → Bool} {items : List α}

/-- To filter a list before a map or after it, by tests that agree on the list. -/
theorem filter_map_eq (h : ∀ a ∈ items, q (f a) = p a) :
    (items.map f).filter q = (items.filter p).map f := by
  rw [List.filter_map]
  exact congrArg (List.map f) (List.filter_congr h)

theorem find?_map_eq (h : ∀ a ∈ items, q (f a) = p a) :
    (items.map f).find? q = (items.find? p).map f := by
  rw [← List.head?_filter, filter_map_eq h, List.head?_map, List.head?_filter]

theorem any_map_eq (h : ∀ a ∈ items, q (f a) = p a) : (items.map f).any q = items.any p := by
  rw [← List.isSome_find?, find?_map_eq h, Option.isSome_map, List.isSome_find?]

end

theorem cut_map {α β : Type} (f : α → β) (size count : Nat) : ∀ items : List α,
    cut size count (items.map f) = (cut size count items).map (List.map f) := by
  induction count with
  | zero => exact fun _ => rfl
  | succ count ih =>
      intro items
      rw [cut, cut, List.map_cons, List.map_take, ← ih, List.map_drop]

section

variable {knowledge query knowledge' query' : Sentence} {f : Model → Model}

theorem examined_map {block : List Model}
    (h : ∀ m ∈ block, (f m).refutes knowledge' query' = m.refutes knowledge query) :
    examined knowledge' query' (block.map f) = examined knowledge query block := by
  induction block with
  | nil => rfl
  | cons m block ih =>
      obtain ⟨hm, hblock⟩ := List.forall_mem_cons.1 h
      rw [List.map_cons, examined_cons, examined_cons, hm, ih hblock]

variable {blocks : List (List Model)}

theorem map_examined_map
    (h : ∀ block ∈ blocks, ∀ m ∈ block,
      (f m).refutes knowledge' query' = m.refutes knowledge query) :
    (blocks.map (List.map f)).map (examined knowledge' query') =
      blocks.map (examined knowledge query) := by
  rw [List.map_map]
  exact List.map_congr_left fun block hblock => examined_map (h block hblock)

/-- The first counter-models of the blocks are found at the same places. -/
theorem flatMap_find?_map
    (h : ∀ block ∈ blocks, ∀ m ∈ block,
      (f m).refutes knowledge' query' = m.refutes knowledge query) :
    ((blocks.map (List.map f)).flatMap fun block =>
        (block.find? (·.refutes knowledge' query')).toList) =
      (blocks.flatMap fun block => (block.find? (·.refutes knowledge query)).toList).map f := by
  rw [List.flatMap_map, List.map_flatMap]
  refine List.flatMap_congr fun block hblock => ?_
  rw [find?_map_eq (h block hblock), Option.toList_map]

end

section

variable {f : Renaming} {knowledge query : Sentence} {config : Config}

/-- A renamed model makes a renamed sentence true if the model made the sentence true. -/
theorem Model.truth_assignment_rename {names : NameSet}
    (hf : Set.InjOn f.name {n | n ∈ names}) {m : Model} (hm : m.domain = names) {p : Sentence}
    (hp : ∀ n, p.Mentions n → n ∈ names) :
    (p.rename f).truth (m.rename f.name).assignment = p.truth m.assignment := by
  rw [Sentence.truth_rename]
  refine truth_congr fun n hn => ?_
  have hdomain : ∀ n ∈ m.domain, n ∈ {n | n ∈ names} := fun n hn => hm ▸ hn
  rw [assignment, value?_rename hf hdomain (hp n hn), assignment]

theorem Model.refutes_rename (h : f.Separates (jointSymbols knowledge query)) {m : Model}
    (hm : m ∈ valuations knowledge query config) :
    (m.rename f.name).refutes (knowledge.rename f) (query.rename f) =
      m.refutes knowledge query := by
  have hf := h.injOn (isName_of_mem_symbols (p := .imp knowledge query))
  have hdomain := (mem_valuations knowledge query config).1 hm
  rw [refutes, refutes, truth_assignment_rename hf hdomain fun n hn => mem_jointSymbols.2 (.inl hn),
    truth_assignment_rename hf hdomain fun n hn => mem_jointSymbols.2 (.inr hn)]

variable (config)

theorem splitOrder_rename (h : f.KeepsOrder (jointSymbols knowledge query)) :
    splitOrder (jointSymbols (knowledge.rename f) (query.rename f)) config =
      (splitOrder (jointSymbols knowledge query) config).map f.name :=
  splitOrder_map (symbols_rename_of_keepsOrder (p := .imp knowledge query) h) config

theorem valuations_rename (h : f.KeepsOrder (jointSymbols knowledge query)) :
    valuations (knowledge.rename f) (query.rename f) config =
      (valuations knowledge query config).map (Model.rename f.name) := by
  have hf := h.separates.injOn (isName_of_mem_symbols (p := .imp knowledge query))
  rw [valuations, valuations, splitOrder_rename config h]
  exact Model.extensions_rename hf (fun n hn => mem_splitOrder.1 hn) (m := .empty)
    fun n hn => absurd hn NameSet.not_mem_empty

theorem blocks_rename (h : f.KeepsOrder (jointSymbols knowledge query)) :
    blocks (knowledge.rename f) (query.rename f) config =
      (blocks knowledge query config).map (List.map (Model.rename f.name)) := by
  rw [blocks, blocks, blockSize, blockSize, forkedSplits, forkedSplits, splitOrder_rename config h,
    List.length_map, valuations_rename config h, cut_map]

/-- Where the order is kept, the examination is the same but for the names. -/
theorem exists_examine_rename (h : f.KeepsOrder (jointSymbols knowledge query)) : ∃ e,
    examine knowledge query config = .ok e ∧
      examine (knowledge.rename f) (query.rename f) config =
        .ok { e with
          query := query.rename f
          counterModels := e.counterModels.map (Model.rename f.name) } := by
  refine ⟨_, examine_eq knowledge query config, ?_⟩
  have hrefutes : ∀ m ∈ valuations knowledge query config,
      (m.rename f.name).refutes (knowledge.rename f) (query.rename f) =
        m.refutes knowledge query := fun _ hm => Model.refutes_rename h.separates hm
  have hblock : ∀ block ∈ blocks knowledge query config, ∀ m ∈ block,
      (m.rename f.name).refutes (knowledge.rename f) (query.rename f) =
        m.refutes knowledge query := by
    intro block hblock m hm
    rw [← flatten_blocks] at hrefutes
    exact hrefutes m (List.mem_flatten.2 ⟨block, hblock, hm⟩)
  rw [examine_eq, splitOrder_rename config h, valuations_rename config h, blocks_rename config h,
    List.length_map, any_map_eq hrefutes, map_examined_map hblock, flatMap_find?_map hblock]

/-! ## The same models -/

/-- The models among the renamed valuations. -/
theorem filter_extensions_rename {p : Sentence} (h : f.Separates p.symbols) :
    (Model.extensions (p.symbols.toList.map f.name) .empty).filter
        (fun m => (p.rename f).truth m.assignment) =
      ((Model.extensions p.symbols.toList .empty).filter fun m => p.truth m.assignment).map
        (Model.rename f.name) := by
  have hf := h.injOn isName_of_mem_symbols
  have hlist := Model.extensions_rename hf (fun n hn => hn) (m := .empty)
    fun n hn => absurd hn NameSet.not_mem_empty
  refine (congrArg (List.filter _) hlist).trans (filter_map_eq fun m hm => ?_)
  exact Model.truth_assignment_rename hf ((Model.mem_extensions_empty fun _ => Iff.rfl).1 hm)
    fun n hn => mem_symbols.2 hn

theorem models_rename {p : Sentence} (h : f.KeepsOrder p.symbols) : ∃ ms, models p = .ok ms ∧
    models (p.rename f) = .ok (ms.map (Model.rename f.name)) := by
  refine ⟨_, models_eq p, ?_⟩
  rw [models_eq, symbols_rename_of_keepsOrder h, filter_extensions_rename h.separates]

/-- If the order is not kept, the renamed models are still those of the renamed sentence. -/
theorem models_rename_perm {p : Sentence} (h : f.Separates p.symbols) : ∃ ms ms',
    models p = .ok ms ∧ models (p.rename f) = .ok ms' ∧
      ms'.Perm (ms.map (Model.rename f.name)) := by
  refine ⟨_, _, models_eq p, models_eq (p.rename f), ?_⟩
  rw [← filter_extensions_rename h]
  exact (Model.extensions_perm (symbols_rename_perm h)
    (nodup_of_pairwise_lt (p.rename f).symbols.sorted) .empty).filter _

end

/-- Under new names that keep the order of the old ones, a question is examined with the same
outcome in every configuration: the same answer after as many valuations, with the same
counter-models under their new names; and the list of the models of the knowledge is the same list
under the new names. Under new names that are only different from one another, the answer is the
same, the report is, and there are as many models. -/
theorem examine_rename (knowledge query : Sentence) (config : Config) (f : Renaming) :
    (f.KeepsOrder (jointSymbols knowledge query) →
      (∃ e, examine knowledge query config = .ok e ∧
        examine (knowledge.rename f) (query.rename f) config =
          .ok { e with
            query := query.rename f
            counterModels := e.counterModels.map (Model.rename f.name) }) ∧
      ∃ ms, models knowledge = .ok ms ∧
        models (knowledge.rename f) = .ok (ms.map (Model.rename f.name))) ∧
    (f.Separates (jointSymbols knowledge query) →
      (∃ e e', examine knowledge query config = .ok e ∧
        examine (knowledge.rename f) (query.rename f) config = .ok e' ∧
        e'.entailed = e.entailed) ∧
      (∃ k k', classify knowledge query config = .ok k ∧
        classify (knowledge.rename f) (query.rename f) config = .ok k' ∧
        k'.report = k.report) ∧
      ∃ ms ms', models knowledge = .ok ms ∧ models (knowledge.rename f) = .ok ms' ∧
        ms'.length = ms.length) := by
  have hknowledge : ∀ n ∈ knowledge.symbols, n ∈ jointSymbols knowledge query :=
    fun n hn => mem_jointSymbols.2 (.inl (mem_symbols.1 hn))
  refine ⟨fun h => ⟨exists_examine_rename config h, models_rename (h.mono hknowledge)⟩,
    fun h => ⟨?_, ?_, ?_⟩⟩
  · have he := examine_eq knowledge query config
    have he' := examine_eq (knowledge.rename f) (query.rename f) config
    exact ⟨_, _, he, he', entailed_rename h he he'⟩
  · obtain ⟨k, hk, -, hreport⟩ := classify_describes knowledge query config
    obtain ⟨k', hk', -, hreport'⟩ :=
      classify_describes (knowledge.rename f) (query.rename f) config
    exact ⟨k, k', hk, hk', ((Report.describes_rename h).1 hreport').unique hreport⟩
  · obtain ⟨ms, ms', hms, hms', hperm⟩ := models_rename_perm (h.mono hknowledge)
    exact ⟨ms, ms', hms, hms', by rw [hperm.length_eq, List.length_map]⟩

/-- That `q` follows from `p`, asked first with a digit behind both names, which keeps their order,
in a shuffled order with forked splits; then with the names exchanged, which keeps no order. -/
theorem examine_rename_pair :
    Renaming.KeepsOrder (fun s => s.append ⟨"1", by decide⟩)
      (jointSymbols (.symbol ⟨"p", by decide⟩) (.symbol ⟨"q", by decide⟩)) ∧
    (∃ e, examine (.symbol ⟨"p", by decide⟩) (.symbol ⟨"q", by decide⟩)
        { parallel := ⟨"parallel", false, true, true⟩
          symbolOrder := ⟨"symbol_order", .lexicographic, .shuffled, .shuffled⟩ } = .ok e ∧
      examine (.symbol (Symbol.append ⟨"p", by decide⟩ ⟨"1", by decide⟩))
          (.symbol (Symbol.append ⟨"q", by decide⟩ ⟨"1", by decide⟩))
          { parallel := ⟨"parallel", false, true, true⟩
            symbolOrder := ⟨"symbol_order", .lexicographic, .shuffled, .shuffled⟩ } =
        .ok { e with
          query := .symbol (Symbol.append ⟨"q", by decide⟩ ⟨"1", by decide⟩)
          counterModels := e.counterModels.map
            (Model.rename (Renaming.name fun s => s.append ⟨"1", by decide⟩)) }) ∧
    Renaming.Separates (fun s => if s.name = "p" then ⟨"q", by decide⟩ else ⟨"p", by decide⟩)
      (jointSymbols (.symbol ⟨"p", by decide⟩) (.symbol ⟨"q", by decide⟩)) ∧
    ∃ e e', examine (.symbol ⟨"p", by decide⟩) (.symbol ⟨"q", by decide⟩) {} = .ok e ∧
      examine (.symbol ⟨"q", by decide⟩) (.symbol ⟨"p", by decide⟩) {} = .ok e' ∧
      e'.entailed = e.entailed := by
  have hnames : ∀ n ∈ jointSymbols (.symbol ⟨"p", by decide⟩) (.symbol ⟨"q", by decide⟩),
      n = "p" ∨ n = "q" := fun n hn => by simpa using hn
  have hkept : Renaming.KeepsOrder (fun s => s.append ⟨"1", by decide⟩)
      (jointSymbols (.symbol ⟨"p", by decide⟩) (.symbol ⟨"q", by decide⟩)) := by
    intro s t hs ht hlt
    show s.name ++ "1" < t.name ++ "1"
    rcases hnames _ hs with h | h <;> rcases hnames _ ht with h' | h' <;> rw [h, h'] at hlt ⊢
    · exact absurd hlt (by decide)
    · decide
    · exact absurd hlt (by decide)
    · exact absurd hlt (by decide)
  have hexchanged : Renaming.Separates
      (fun s => if s.name = "p" then ⟨"q", by decide⟩ else ⟨"p", by decide⟩)
      (jointSymbols (.symbol ⟨"p", by decide⟩) (.symbol ⟨"q", by decide⟩)) := by
    intro s t hs ht heq
    refine Symbol.ext_name ?_
    rcases hnames _ hs with h | h <;> rcases hnames _ ht with h' | h' <;>
      simp only [h, h'] at heq ⊢
    · exact absurd heq (by decide)
    · exact absurd heq (by decide)
  exact ⟨hkept, ((examine_rename _ _ _ _).1 hkept).1, hexchanged,
    ((examine_rename _ _ _ _).2 hexchanged).1⟩

end Consequence
