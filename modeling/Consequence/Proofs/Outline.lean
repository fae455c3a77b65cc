import Consequence.Proofs.Readability
import Consequence.Sentence.Outline

/-!
# Outlines can be read back

An outline drops nothing, and `outline_eq_iff` says so: sentences with the same outline are the same
sentence. What makes this more than a matter of looking is that hardly anything in an outline is
reserved for it. A name may be `And` or `Not`, and it may hold the comma that stands between two
parts, at its end too. Reserved are the parentheses and the blanks alone.

The parentheses tell a symbol from the other sentences, and end the word for the kind
(`node_inj`). The blanks tell the parts from one another, those that stand outside all
parentheses; inside a part there is no such blank, for every outline is tight
(`tight_outlineChars`). So from one outline the same kind is read and the same row of outlines of
parts, and the induction goes down to these.
-/

namespace Consequence.Sentence

open Text

/-! ## The outline of a compound sentence -/

/-- The word that stands for a sentence in front of its parts. A symbol has none. -/
def kind : Sentence → String
  | .symbol _ => ""
  | .neg _ => "Not"
  | .conj _ => "And"
  | .disj _ => "Or"
  | .imp _ _ => "Implication"
  | .iff _ _ => "Biconditional"

/-- To show something of every sentence, show it of each from its children. -/
theorem children_induction {motive : Sentence → Prop}
    (step : ∀ p, (∀ q ∈ p.children, motive q) → motive p) (p : Sentence) : motive p := by
  induction p with
  | symbol s => exact step _ nofun
  | neg p ih => exact step _ (List.forall_mem_singleton.2 ih)
  | conj parts ih => exact step _ ih
  | disj parts ih => exact step _ ih
  | imp p q ihp ihq => exact step _ (List.forall_mem_cons.2 ⟨ihp, List.forall_mem_singleton.2 ihq⟩)
  | iff p q ihp ihq => exact step _ (List.forall_mem_cons.2 ⟨ihp, List.forall_mem_singleton.2 ihq⟩)

theorem outlineCharsAll_eq_map (parts : List Sentence) :
    outlineCharsAll parts = parts.map outlineChars := by
  induction parts with
  | nil => rfl
  | cons p parts ih => rw [outlineCharsAll, List.map_cons, ih]

/-- A sentence is a symbol, or else its outline is its kind and the outlines of its children. -/
theorem symbol_or_node (p : Sentence) : (∃ s, p = .symbol s) ∨ (∀ s, p ≠ .symbol s) ∧
    p.outlineChars = node p.kind.toList (p.children.map outlineChars) := by
  cases p with
  | symbol s => exact .inl ⟨s, rfl⟩
  | _ =>
      refine .inr ⟨fun s h => ?_, ?_⟩
      · cases h
      · simp [outlineChars, outlineCharsAll_eq_map, kind, children]

/-- A sentence that is no symbol is known by its kind and its children. -/
theorem eq_of_kind_eq {p q : Sentence} (h : ∀ s, p ≠ .symbol s) (hkind : p.kind = q.kind)
    (hchildren : p.children = q.children) : p = q := by
  cases p with
  | symbol s => exact absurd rfl (h s)
  | neg p =>
      cases q with
      | neg q => rw [(List.cons.inj hchildren).1]
      | _ => exact absurd hkind (by simp [kind])
  | conj parts =>
      cases q with
      | conj parts' => exact congrArg conj hchildren
      | _ => exact absurd hkind (by simp [kind])
  | disj parts =>
      cases q with
      | disj parts' => exact congrArg disj hchildren
      | _ => exact absurd hkind (by simp [kind])
  | imp p p' =>
      cases q with
      | imp q q' =>
          obtain ⟨rfl, hrest⟩ := List.cons.inj hchildren
          rw [(List.cons.inj hrest).1]
      | _ => exact absurd hkind (by simp [kind])
  | iff p p' =>
      cases q with
      | iff q q' =>
          obtain ⟨rfl, hrest⟩ := List.cons.inj hchildren
          rw [(List.cons.inj hrest).1]
      | _ => exact absurd hkind (by simp [kind])

/-! ## Outlines are tight -/

theorem ne_of_mem_kind (p : Sentence) : ∀ c ∈ p.kind.toList, c ≠ '(' ∧ c ≠ ')' ∧ c ≠ ' ' := by
  cases p <;> simp [kind]

theorem tight_node {kind : List Char} (hkind : Tight kind) {children : List (List Char)}
    (h : ∀ text ∈ children, isBalanced text = true) : Tight (node kind children) := by
  have hrow : isBalanced ([',', ' '].intercalate children) = true :=
    isBalanced_intercalate (by decide) h
  rw [node, List.append_assoc]
  exact hkind.append (tight_group hrow)

/-- All blanks of an outline stand inside parentheses. -/
theorem tight_outlineChars (p : Sentence) : Tight p.outlineChars := by
  induction p using children_induction with
  | step p ih =>
      rcases p.symbol_or_node with ⟨s, rfl⟩ | ⟨-, hnode⟩
      · exact tight_of_isName s.isName
      · rw [hnode]
        refine tight_node (tight_of_forall p.ne_of_mem_kind) fun text htext => ?_
        obtain ⟨q, hq, rfl⟩ := List.mem_map.1 htext
        exact (ih q hq).isBalanced

theorem outlineChars_ne_nil (p : Sentence) : p.outlineChars ≠ [] := by
  cases p with
  | symbol s => exact s.isName.1
  | _ => simp [outlineChars, node]

/-! ## Taking an outline apart -/

/-- A node is no name. -/
theorem node_ne_name (kind : List Char) (children : List (List Char)) (s : Symbol) :
    node kind children ≠ s.name.toList := by
  intro h
  have hmem : '(' ∈ s.name.toList := by
    rw [← h, node]
    simp
  exact ne_of_isName s.isName hmem (by decide) rfl

theorem takeWhile_node {kind : List Char} (h : ∀ c ∈ kind, c ≠ '(')
    (children : List (List Char)) : (node kind children).takeWhile (· != '(') = kind := by
  rw [node, List.append_assoc, List.takeWhile_append_of_pos fun c hc => bne_iff_ne.2 (h c hc)]
  simp

/-- The first parenthesis of a node ends its kind, and the last one the row of its parts. -/
theorem node_inj {kind kind' : List Char} {children children' : List (List Char)}
    (hkind : ∀ c ∈ kind, c ≠ '(') (hkind' : ∀ c ∈ kind', c ≠ '(')
    (h : node kind children = node kind' children') :
    kind = kind' ∧ [',', ' '].intercalate children = [',', ' '].intercalate children' := by
  have heq : kind = kind' := by
    rw [← takeWhile_node hkind children, h, takeWhile_node hkind' children']
  subst heq
  rw [node, node, List.append_assoc, List.append_assoc] at h
  exact ⟨rfl, List.append_cancel_right (List.cons.inj (List.append_cancel_left h)).2⟩

/-- From one outline one sentence is read. -/
theorem eq_of_outlineChars_eq {p q : Sentence} (h : p.outlineChars = q.outlineChars) : p = q := by
  induction p using children_induction generalizing q with
  | step p ih =>
      rcases p.symbol_or_node with ⟨s, rfl⟩ | ⟨hp, hpnode⟩
      · rcases q.symbol_or_node with ⟨t, rfl⟩ | ⟨-, hqnode⟩
        · exact congrArg symbol (Symbol.ext_name (String.toList_injective h))
        · exact absurd (h.trans hqnode).symm (node_ne_name _ _ s)
      · rcases q.symbol_or_node with ⟨t, rfl⟩ | ⟨-, hqnode⟩
        · exact absurd (hpnode.symm.trans h) (node_ne_name _ _ t)
        · rw [hpnode, hqnode] at h
          obtain ⟨hkind, hrow⟩ := node_inj (fun c hc => (p.ne_of_mem_kind c hc).1)
            (fun c hc => (q.ne_of_mem_kind c hc).1) h
          have hparts : ∀ {parts : List Sentence}, ∀ text ∈ parts.map outlineChars,
              text ≠ [] ∧ Tight text := by
            intro parts text htext
            obtain ⟨part, -, rfl⟩ := List.mem_map.1 htext
            exact ⟨part.outlineChars_ne_nil, part.tight_outlineChars⟩
          have hcomma : Tight [','] := tight_of_forall (by simp)
          have houtlines : p.children.map outlineChars = q.children.map outlineChars :=
            intercalate_inj hcomma hparts hparts hrow
          have hchildren : p.children.map id = q.children.map id := map_eq_of_map_eq ih houtlines
          rw [List.map_id, List.map_id] at hchildren
          exact eq_of_kind_eq hp (String.toList_injective hkind) hchildren

/-- An outline shows the whole sentence. In particular it shows which junction an empty one is,
whether a part stands in a junction of its own, and how many parts a junction has. -/
theorem outline_eq_iff (p q : Sentence) :
    (p.outline = q.outline ↔ p = q) ∧
      (conj []).outline ≠ (disj []).outline ∧ (conj [p]).outline ≠ p.outline ∧
      ∀ parts parts' : List Sentence,
        ((conj parts).outline = (conj parts').outline ↔ parts = parts') ∧
        ((disj parts).outline = (disj parts').outline ↔ parts = parts') := by
  have houtline : ∀ p q : Sentence, p.outline = q.outline ↔ p = q := by
    intro p q
    rw [outline, outline, String.ofList_inj]
    exact ⟨eq_of_outlineChars_eq, congrArg outlineChars⟩
  refine ⟨houtline p q, fun h => ?_, fun h => ?_, fun parts parts' => ⟨?_, ?_⟩⟩
  · cases (houtline _ _).1 h
  · -- No sentence is a part of itself.
    have hsize := congrArg sizeOf ((houtline _ _).1 h)
    simp at hsize
    omega
  · rw [houtline, conj.injEq]
  · rw [houtline, disj.injEq]

/-- A name may be the word for a kind, and end in a comma. -/
example : (conj [.symbol ⟨"Not", by decide⟩, .symbol ⟨"q,", by decide⟩, .neg (.disj [])]).outline =
    "And(Not, q,, Not(Or()))" :=
  rfl

end Consequence.Sentence
