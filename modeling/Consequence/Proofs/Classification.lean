import Consequence.Proofs.Question
import Consequence.Proofs.Refinement

/-!
# The reports of a context

A context classifies as is done without one, and what it reports is exact. It holds a conjunction
in any case, but a conjunction of one part puts the same questions as the part, and
`classify_report_iff` is about the knowledge that the context was given.

From there on reports only become more determined. No request takes a sentence away from a
context: whatever is asked or set, the knowledge is a conjunction that has the parts it had before in
front of those that were added (`growsInto_step`). So of any two contexts on the way of a run the
later one holds knowledge that entails the knowledge of the earlier one (`pairwise_visited`); it
would not, if a context could hold a disjunction. All else is about two pieces of knowledge and no
longer about a run: with fewer models fewer values are left open for a query, and that is
`Describes.mayBecome`.

That an added sentence brings names with it is of no account here. The examinations before and
after go through different valuations, and their lists cannot be compared; but each report is
about all assignments of all names, and these are the same ones throughout.
-/

namespace Consequence

/-! ## With a context as without one -/

theorem Sentence.conj_conjuncts_interchangeable (knowledge : Sentence) :
    (Sentence.conj knowledge.conjuncts).Interchangeable knowledge := by
  cases knowledge with
  | conj parts => exact .refl _
  | symbol | neg | disj | imp | iff => exact Sentence.conj_singleton_interchangeable _

/-- A context that holds some knowledge classifies as is done without a context, although what it
holds is a conjunction. Every context that requests lead to is one of these, since the conjunction
that it holds is such knowledge. -/
theorem Context.classify_ofKnowledge {knowledge query : Sentence} {config : Config}
    {k : Classification} (h : Consequence.classify knowledge query config = .ok k)
    (tally : Tally) : ∃ c,
      Context.classify { ofKnowledge config knowledge with tally := tally } query = .ok (k, c) := by
  have hknowledge := knowledge_ofKnowledge config knowledge
  have hsame := Sentence.conj_conjuncts_interchangeable knowledge
  have hclassify : Consequence.classify (.conj knowledge.conjuncts) query config = .ok k := by
    rw [hsame.classify_eq, h]
  exact ⟨_, classify_eq_count (c := { ofKnowledge config knowledge with tally := tally })
    (hknowledge ▸ hclassify)⟩

/-- A classification is exact, whatever the configuration, and with a context as without one: it
gives the one report that describes the knowledge and the query. So the report on the negation is
the opposite one, and whether the knowledge is reported to be inconsistent does not depend on the
query. -/
theorem classify_report_iff (knowledge query : Sentence) (config : Config) (tally : Tally) : ∃ k,
    classify knowledge query config = .ok k ∧
      (∃ c, Context.classify { Context.ofKnowledge config knowledge with tally := tally } query =
        .ok (k, c)) ∧
      (∀ r, k.report = r ↔ r.Describes knowledge query) ∧
      (∃ k', classify knowledge (.neg query) config = .ok k' ∧ k'.report = k.report.opposite) ∧
      ∀ query' config', ∃ k', classify knowledge query' config' = .ok k' ∧
        (k'.report = .inconsistent ↔ k.report = .inconsistent) := by
  obtain ⟨k, hk, -, hreport⟩ := classify_describes knowledge query config
  have hexact : ∀ r, k.report = r ↔ r.Describes knowledge query := fun r =>
    ⟨fun h => h ▸ hreport, hreport.unique⟩
  refine ⟨k, hk, Context.classify_ofKnowledge hk tally, hexact, ?_, fun query' config' => ?_⟩
  · obtain ⟨k', hk', -, hreport'⟩ := classify_describes knowledge (.neg query) config
    refine ⟨k', hk', ?_⟩
    rw [Report.describes_neg, ← hexact] at hreport'
    rw [hreport', Report.opposite_opposite]
  · obtain ⟨k', hk', -, hreport'⟩ := classify_describes knowledge query' config'
    refine ⟨k', hk', fun h => ?_, fun h => ?_⟩
    · exact (hexact _).2 (Report.Describes.of_inconsistent (h ▸ hreport') query)
    · exact hreport'.unique (((hexact _).1 h).of_inconsistent query')

/-! ## Knowledge only grows along a run -/

/-- Both sentences are conjunctions, and the second has the parts of the first and then others. -/
def Sentence.GrowsInto (p q : Sentence) : Prop :=
  ∃ parts more, p = .conj parts ∧ q = .conj (parts ++ more)

theorem Sentence.growsInto_self (parts : List Sentence) :
    (conj parts).GrowsInto (conj parts) :=
  ⟨parts, [], rfl, congrArg conj (List.append_nil parts).symm⟩

theorem Sentence.GrowsInto.trans {p q r : Sentence} (h : p.GrowsInto q) (h' : q.GrowsInto r) :
    p.GrowsInto r := by
  obtain ⟨parts, more, rfl, rfl⟩ := h
  obtain ⟨parts', more', hparts, rfl⟩ := h'
  obtain rfl := conj.inj hparts
  exact ⟨parts, more ++ more', rfl, congrArg conj (List.append_assoc ..)⟩

theorem Sentence.GrowsInto.entails {p q : Sentence} (h : p.GrowsInto q) : q.Entails p := by
  obtain ⟨parts, more, rfl, rfl⟩ := h
  intro a htruth
  rw [truth_conj, List.all_append, Bool.and_eq_true] at htruth
  rw [truth_conj, htruth.1]

namespace Context

/-- The contexts of a run: the one that it starts from, and the one that each request leaves. -/
def visited (c : Context) (requests : List Request) : List Context :=
  c :: (c.run requests).map (·.context)

/-- The request at each place of a run is put to the context at that place. -/
theorem run_eq_zipWith (requests : List Request) : ∀ c : Context,
    c.run requests = List.zipWith step (c.visited requests) requests := by
  induction requests with
  | nil => exact fun _ => rfl
  | cons request requests ih =>
      intro c
      rw [run, ih]
      rfl

theorem growsInto_step {c : Context} {parts : List Sentence} (hc : c.knowledge = .conj parts)
    (request : Request) : c.knowledge.GrowsInto (c.step request).context.knowledge :=
  ⟨parts, Request.added [request], hc, knowledge_step hc request⟩

theorem growsInto_of_mem_visited {later : Context} (requests : List Request) :
    ∀ {c : Context} {parts : List Sentence}, c.knowledge = .conj parts →
      later ∈ c.visited requests → c.knowledge.GrowsInto later.knowledge := by
  induction requests with
  | nil =>
      intro c parts hc h
      rw [List.mem_singleton.1 h, hc]
      exact Sentence.growsInto_self parts
  | cons request requests ih =>
      intro c parts hc h
      rcases List.mem_cons.1 h with rfl | h
      · rw [hc]
        exact Sentence.growsInto_self parts
      · exact (growsInto_step hc request).trans (ih (knowledge_step hc request) h)

/-- Of two contexts of a run the later one has kept the conjuncts of the earlier one. -/
theorem pairwise_visited (requests : List Request) : ∀ {c : Context} {parts : List Sentence},
    c.knowledge = .conj parts → (c.visited requests).Pairwise fun earlier later =>
      earlier.knowledge.GrowsInto later.knowledge := by
  induction requests with
  | nil => exact fun _ => List.pairwise_singleton ..
  | cons request requests ih =>
      intro c parts hc
      refine List.pairwise_cons.2 ⟨fun later h => ?_, ih (knowledge_step hc request)⟩
      exact growsInto_of_mem_visited (request :: requests) hc (List.mem_cons_of_mem c h)

/-! ## Reports only become more determined -/

/-- What the context answers if it is asked now for one classification, or for a row of them. -/
def ReportsAs (c : Context) (report : Sentence → Report) : Prop :=
  (∀ query, (c.step (.classify query)).answer = .ok (.report (report query))) ∧
    ∀ queries, (c.step (.classifyAll queries)).answer =
      .ok (.reports (queries.map fun query => (query, report query)))

/-- Every context reports on every query, and always what describes its knowledge. -/
theorem exists_reportsAs : ∃ report : Context → Sentence → Report,
    ∀ c : Context, c.ReportsAs (report c) ∧
      ∀ query, (report c query).Describes c.knowledge query := by
  obtain ⟨report, hreport⟩ := exists_describes
  refine ⟨fun c => report c.knowledge, fun c => ⟨⟨fun query => ?_, fun queries => ?_⟩,
    hreport c.knowledge⟩⟩
  · obtain ⟨tally, events, hstep⟩ := c.step_eq (.classify query)
    obtain ⟨k, hk, -, hdescribes⟩ := classify_describes c.knowledge query {}
    have hreported : k.report = report c.knowledge query :=
      hdescribes.unique (hreport c.knowledge query)
    rw [hstep, Request.answerFrom, hk]
    exact congrArg (fun r => Except.ok (Answer.report r)) hreported
  · obtain ⟨tally, events, hstep⟩ := c.step_eq (.classifyAll queries)
    rw [hstep, Request.answerFrom, mapM_classify_eq hreport]
    rfl

/-- Along a run reports only ever become more determined. Every context reports on every query,
those included that the requests of the run are put to; and from one context of a run to a later
one present may become inconsistent and nothing else, absent likewise, and inconsistent stays as it
is. So what is present never becomes absent, and what is undetermined was so before. At any one
point either all queries are reported to be inconsistent or none is. -/
theorem run_reports_mayBecome (config : Config) (knowledge : Sentence) (tally : Tally)
    (requests : List Request) :
    let c : Context := { ofKnowledge config knowledge with tally := tally }
    c.run requests = List.zipWith step (c.visited requests) requests ∧
      ∃ report : Context → Sentence → Report,
        (∀ point : Context, point.ReportsAs (report point)) ∧
        (c.visited requests).Pairwise (fun earlier later =>
          (∀ query, (report earlier query).MayBecome (report later query)) ∧
          (∀ query, report earlier query = .present → report later query ≠ .absent) ∧
          {query | report later query = .undetermined} ⊆
            {query | report earlier query = .undetermined}) ∧
        ∀ point : Context, (∀ query, report point query = .inconsistent) ∨
          ∀ query, report point query ≠ .inconsistent := by
  intro c
  have hc : c.knowledge = .conj knowledge.conjuncts := knowledge_ofKnowledge config knowledge
  obtain ⟨report, hreport⟩ := exists_reportsAs
  refine ⟨run_eq_zipWith requests c, report, fun point => (hreport point).1,
    (pairwise_visited requests hc).imp fun {earlier later} hgrows => ?_, fun point => ?_⟩
  · have hbecome : ∀ query, (report earlier query).MayBecome (report later query) := by
      intro query
      exact ((hreport earlier).2 query).mayBecome ((hreport later).2 query) hgrows.entails
    refine ⟨hbecome, fun query hpresent habsent => ?_, fun query hundetermined => ?_⟩
    · exact Report.not_present_mayBecome_absent (hpresent ▸ habsent ▸ hbecome query)
    · have hlater : report later query = .undetermined := hundetermined
      exact Report.eq_undetermined_of_mayBecome (hlater ▸ hbecome query)
  · by_cases h : ∃ query, report point query = .inconsistent
    · obtain ⟨query, hquery⟩ := h
      have hnone : Report.inconsistent.Describes point.knowledge query :=
        hquery ▸ (hreport point).2 query
      exact .inl fun query' => ((hreport point).2 query').unique (hnone.of_inconsistent query')
    · exact .inr fun query hquery => h ⟨query, hquery⟩

end Context

end Consequence
