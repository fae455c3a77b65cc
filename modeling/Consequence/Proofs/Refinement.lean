import Consequence.Context.Step
import Consequence.Proofs.Models
import Consequence.Proofs.Report

/-!
# A context is the knowledge added to it

A context carries a configuration and a tally from one request to the next, and neither has a
say in what it answers. What it answers is what the procedures without a context give for the
conjunction of all sentences added so far, in the default configuration: entailment,
satisfiability, classification and the models of that conjunction.

The state that counts is therefore the knowledge and, for the one request that is about the
configuration, the configuration. `step_eq_count` says once what a request does to them, what it adds
to the tally and how it is answered, and it says so of every context, whatever its knowledge is.

Knowledge that is no junction refuses what is added to it, and a disjunction grows weaker; so one
thing has to be carried along a run, that the knowledge is a conjunction. It is one at the start
(`knowledge_ofKnowledge`), and a request leaves the conjunction of the same parts and what it adds
(`knowledge_step`). With this `after_eq` goes over any number of requests, and `run_answer` puts all
of it together. That a query leaves nothing behind is not argued anywhere: the answer is stated in
terms that no earlier query occurs in.
-/

namespace Consequence

/-- The sentences that a context starts from: those of a conjunction, or the sentence alone. -/
def Sentence.conjuncts : Sentence → List Sentence
  | .conj parts => parts
  | p => [p]

namespace Request

/-- The sentence that a request adds, if that is what it does. -/
def addition? : Request → Option Sentence
  | .add p => some p
  | _ => none

/-- The sentences that a row of requests adds, in order. -/
def added (requests : List Request) : List Sentence :=
  requests.filterMap addition?

theorem added_append (requests more : List Request) :
    added (requests ++ more) = added requests ++ added more :=
  List.filterMap_append

/-- The queries that a request has examined, in order: a classification asks for the query and then
for its negation. -/
def queries : Request → List Sentence
  | .entails query => [query]
  | .satisfiable => [.falsum]
  | .classify query => [query, .neg query]
  | .classifyAll queries => queries.flatMap fun query => [query, .neg query]
  | _ => []

/-- The configuration after a request. Only a setting changes it, and only if it is accepted. -/
def configure (config : Config) : Request → Config
  | .set key value =>
    match config.set key value with
    | .ok config => config
    | .error _ => config
  | _ => config

/-- The knowledge after a request. Only an addition changes it, and only if it is accepted. -/
def extend (knowledge : Sentence) : Request → Sentence
  | .add p =>
    match knowledge.add p with
    | .ok knowledge => knowledge
    | .error _ => knowledge
  | _ => knowledge

/-- A conjunction takes whatever is added, and stays a conjunction. -/
theorem extend_conj (parts : List Sentence) (request : Request) :
    request.extend (.conj parts) = .conj (parts ++ added [request]) := by
  cases request with
  | add p =>
      rw [extend, Sentence.add_conj]
      rfl
  | entails | satisfiable | classify | classifyAll | models | symbols | knowledge | set =>
      exact congrArg Sentence.conj (List.append_nil parts).symm

/-- The answer to a request that has the knowledge as a sentence and nothing else to go by, but
for a setting, which is of the configuration. -/
def answerFrom (config : Config) (knowledge : Sentence) : Request → Except Error Answer
  | .add p => (fun _ => .added) <$> knowledge.add p
  | .entails query => .truth <$> Consequence.entails knowledge query
  | .satisfiable => .truth <$> Consequence.satisfiable knowledge
  | .classify query => (.report ·.report) <$> Consequence.classify knowledge query {}
  | .classifyAll queries =>
    .reports <$> queries.mapM fun query =>
      (fun c => (query, c.report)) <$> Consequence.classify knowledge query {}
  | .models => .models <$> Consequence.models knowledge
  | .symbols => .ok (.symbols knowledge.symbols)
  | .knowledge => .ok (.knowledge knowledge)
  | .set key value => .config <$> config.set key value

end Request

/-- An entailment to examine: some knowledge, a query, and the configuration in force. -/
structure Check where
  knowledge : Sentence
  query : Sentence
  config : Config

def Check.examine (check : Check) : Except Error Examination :=
  Consequence.examine check.knowledge check.query check.config

/-- The entailments that a row of requests has examined, in order, each with the knowledge and the
configuration that the requests before it leave. -/
def Request.checks (config : Config) (conjuncts : List Sentence) : List Request → List Check
  | [] => []
  | request :: requests =>
    request.queries.map (fun query => ⟨.conj conjuncts, query, config⟩)
      ++ checks (request.configure config) (conjuncts ++ added [request]) requests

/-! ## Queries leave a tally and nothing else -/

theorem mapM_cons_eq_ok {α β : Type} {f : α → Except Error β} {a : α} {as : List α} {bs : List β}
    (h : (a :: as).mapM f = .ok bs) : ∃ b rest, f a = .ok b ∧ as.mapM f = .ok rest ∧
      b :: rest = bs := by
  rw [List.mapM_cons] at h
  cases ha : f a with
  | error e => rw [ha] at h; cases h
  | ok b =>
      cases hrest : as.mapM f with
      | error e => rw [ha, hrest] at h; cases h
      | ok rest =>
          rw [ha, hrest] at h
          exact ⟨b, rest, rfl, rfl, Except.ok.inj h⟩

/-- A classification succeeds, with the report that the default configuration gives. -/
theorem classify_report (knowledge query : Sentence) (config : Config) : ∃ k k',
    classify knowledge query config = .ok k ∧ classify knowledge query {} = .ok k' ∧
      k.query = query ∧ k'.report = k.report := by
  obtain ⟨k, hk, hquery, hreport⟩ := classify_describes knowledge query config
  obtain ⟨k', hk', -, hreport'⟩ := classify_describes knowledge query {}
  exact ⟨k, k', hk, hk', hquery, hreport'.unique hreport⟩

theorem mapM_classify_report (knowledge : Sentence) (config : Config)
    (queries : List Sentence) : ∃ ks,
    queries.mapM (classify knowledge · config) = .ok ks ∧
      queries.mapM (fun query =>
        (fun k : Classification => (query, k.report)) <$> classify knowledge query {}) =
        .ok (ks.map fun k => (k.query, k.report)) := by
  induction queries with
  | nil => exact ⟨[], rfl, rfl⟩
  | cons query queries ih =>
      obtain ⟨ks, hks, hreports⟩ := ih
      obtain ⟨k, k', hk, hk', hquery, hreport⟩ := classify_report knowledge query config
      refine ⟨k :: ks, ?_, ?_⟩
      · rw [List.mapM_cons, hk, hks]
        rfl
      · rw [List.mapM_cons, hk', hreports, List.map_cons, hquery, ← hreport]
        rfl

/-- The reports of the default configuration on a row of queries are the right ones. -/
theorem mapM_classify_eq {report : Sentence → Sentence → Report}
    (hreport : ∀ knowledge query, (report knowledge query).Describes knowledge query)
    (knowledge : Sentence) (queries : List Sentence) :
    queries.mapM (fun query =>
      (fun k : Classification => (query, k.report)) <$> classify knowledge query {}) =
      .ok (queries.map fun query => (query, report knowledge query)) := by
  have hquery : ∀ query, (fun k : Classification => (query, k.report)) <$>
      classify knowledge query {} = pure (query, report knowledge query) := by
    intro query
    obtain ⟨k, hk, -, hdescribes⟩ := classify_describes knowledge query {}
    rw [hk, ← hdescribes.unique (hreport knowledge query)]
    rfl
  simp only [hquery]
  exact List.mapM_pure

theorem examine_of_classify {knowledge query : Sentence} {config : Config} {k : Classification}
    (h : classify knowledge query config = .ok k) :
    k.query = query ∧ examine knowledge query config = .ok k.affirmed ∧
      examine knowledge (.neg query) config = .ok k.denied := by
  obtain ⟨affirmed, haffirmed, -⟩ := examine_eq_entails knowledge query config
  obtain ⟨denied, hdenied, -⟩ := examine_eq_entails knowledge (.neg query) config
  rw [classify, haffirmed, hdenied] at h
  rw [← Except.ok.inj h]
  exact ⟨rfl, haffirmed, hdenied⟩

/-- Both examinations of a classification, in the order in which they are made. -/
def Classification.examinations (k : Classification) : List Examination :=
  [k.affirmed, k.denied]

theorem mapM_examine_of_mapM_classify {knowledge : Sentence} {config : Config}
    {queries : List Sentence} : ∀ {ks : List Classification},
    queries.mapM (classify knowledge · config) = .ok ks →
    (queries.flatMap fun query => [query, .neg query]).mapM (examine knowledge · config) =
      .ok (ks.flatMap Classification.examinations) := by
  induction queries with
  | nil =>
      intro ks h
      obtain rfl : [] = ks := Except.ok.inj h
      rfl
  | cons query queries ih =>
      intro ks h
      obtain ⟨k, rest, hk, hrest, rfl⟩ := mapM_cons_eq_ok h
      obtain ⟨-, haffirmed, hdenied⟩ := examine_of_classify hk
      rw [List.flatMap_cons, List.mapM_append, ih hrest, List.mapM_cons, haffirmed,
        List.mapM_cons, hdenied]
      rfl

/-- Counts both examinations of a classification. -/
def Tally.countBoth (t : Tally) (k : Classification) : Tally :=
  (t.count k.affirmed).count k.denied

theorem Tally.foldl_countBoth (ks : List Classification) (t : Tally) :
    ks.foldl countBoth t = (ks.flatMap Classification.examinations).foldl count t := by
  rw [List.foldl_flatMap]
  rfl

namespace Context

theorem examine_eq_count {c : Context} {query : Sentence} {e : Examination}
    (h : Consequence.examine c.knowledge query c.config = .ok e) :
    c.examine query = .ok (e, c.count e) := by
  rw [examine, h]
  rfl

theorem classify_eq_count {c : Context} {query : Sentence} {k : Classification}
    (h : Consequence.classify c.knowledge query c.config = .ok k) :
    c.classify query = .ok (k, { c with tally := c.tally.countBoth k }) := by
  obtain ⟨rfl, haffirmed, hdenied⟩ := examine_of_classify h
  have hfirst : c.examine k.query = .ok (k.affirmed, c.count k.affirmed) :=
    examine_eq_count haffirmed
  have hsecond : (c.count k.affirmed).examine (.neg k.query) =
      .ok (k.denied, (c.count k.affirmed).count k.denied) := examine_eq_count hdenied
  simp only [classify, hfirst, bind, Except.bind, hsecond]
  rfl

theorem classifyAll_eq_count {queries : List Sentence} : ∀ {c : Context}
    {ks : List Classification},
    queries.mapM (Consequence.classify c.knowledge · c.config) = .ok ks →
    c.classifyAll queries = .ok (ks, { c with tally := ks.foldl Tally.countBoth c.tally }) := by
  induction queries with
  | nil =>
      intro c ks h
      obtain rfl : [] = ks := Except.ok.inj h
      rfl
  | cons query queries ih =>
      intro c ks h
      obtain ⟨k, rest, hk, hrest, rfl⟩ := mapM_cons_eq_ok h
      have hafter : classifyAll { c with tally := c.tally.countBoth k } queries = .ok (rest,
          { c with tally := rest.foldl Tally.countBoth (c.tally.countBoth k) }) := ih hrest
      simp only [classifyAll, classify_eq_count hk, bind, Except.bind, hafter]
      rfl

/-! ## One request -/

/-- What a request does: the configuration, the knowledge and the tally after it and the answer to
it, with the events left open. The tally counts the examinations of its queries, one after the
other. -/
theorem step_eq_count (c : Context) (request : Request) : ∃ es events,
    request.queries.mapM (Consequence.examine c.knowledge · c.config) = .ok es ∧
      c.step request =
        ⟨⟨request.configure c.config, request.extend c.knowledge, es.foldl Tally.count c.tally⟩,
          request.answerFrom c.config c.knowledge, events⟩ := by
  have hsingle : ∀ {query : Sentence} {e : Examination},
      Consequence.examine c.knowledge query c.config = .ok e →
      [query].mapM (Consequence.examine c.knowledge · c.config) = .ok [e] := by
    intro query e he
    rw [List.mapM_cons, he]
    rfl
  cases request with
  | add p =>
      refine ⟨[], [.adding p], rfl, ?_⟩
      rw [step, add, Request.extend, Request.answerFrom]
      cases c.knowledge.add p <;> rfl
  | entails query =>
      obtain ⟨e, he, hentails⟩ := examine_eq_entails c.knowledge query c.config
      refine ⟨[e], e.events, hsingle he, ?_⟩
      rw [step, examine_eq_count he, Request.answerFrom, hentails]
      rfl
  | satisfiable =>
      obtain ⟨e, he, hentails⟩ := examine_eq_entails c.knowledge .falsum c.config
      refine ⟨[e], e.events, hsingle he, ?_⟩
      rw [step, examine_eq_count he, Request.answerFrom, satisfiable, hentails]
      rfl
  | classify query =>
      obtain ⟨k, k', hk, hk', -, hreport⟩ := classify_report c.knowledge query c.config
      obtain ⟨-, haffirmed, hdenied⟩ := examine_of_classify hk
      refine ⟨k.examinations, k.announced, ?_, ?_⟩
      · rw [Request.queries, List.mapM_cons, haffirmed, hsingle hdenied]
        rfl
      · rw [step, classify_eq_count hk, Request.answerFrom, hk', reply]
        exact congrArg (fun r => (⟨_, .ok (.report r), _⟩ : Reply)) hreport.symm
  | classifyAll queries =>
      obtain ⟨ks, hks, hreports⟩ := mapM_classify_report c.knowledge c.config queries
      refine ⟨ks.flatMap Classification.examinations, ks.flatMap (·.announced),
        mapM_examine_of_mapM_classify hks, ?_⟩
      rw [step, classifyAll_eq_count hks, Request.answerFrom, hreports, Tally.foldl_countBoth]
      rfl
  | models =>
      obtain ⟨ms, hms⟩ : ∃ ms, Consequence.models c.knowledge = .ok ms := ⟨_, models_eq _⟩
      refine ⟨[], ms.map .model, rfl, ?_⟩
      rw [step, models, Request.answerFrom, hms]
      rfl
  | symbols => exact ⟨[], [], rfl, rfl⟩
  | knowledge => exact ⟨[], [], rfl, rfl⟩
  | set key value =>
      refine ⟨[], [], rfl, ?_⟩
      rw [step, Request.configure, Request.answerFrom]
      cases c.config.set key value <;> rfl

/-- What a request does, with the tally left open as well. -/
theorem step_eq (c : Context) (request : Request) : ∃ tally events,
    c.step request =
      ⟨⟨request.configure c.config, request.extend c.knowledge, tally⟩,
        request.answerFrom c.config c.knowledge, events⟩ := by
  obtain ⟨es, events, -, hstep⟩ := c.step_eq_count request
  exact ⟨_, events, hstep⟩

/-- If a context holds a conjunction, a request leaves the conjunction of the same parts and of what
it adds. -/
theorem knowledge_step {c : Context} {parts : List Sentence} (hc : c.knowledge = .conj parts)
    (request : Request) :
    (c.step request).context.knowledge = .conj (parts ++ Request.added [request]) := by
  obtain ⟨tally, events, hstep⟩ := c.step_eq request
  rw [hstep, hc, Request.extend_conj]

/-- Only a setting may be refused, if the knowledge is a conjunction. -/
theorem answerFrom_eq_ok (config : Config) (parts : List Sentence) {request : Request}
    (h : ∀ key value, request ≠ .set key value) :
    ∃ answer, request.answerFrom config (.conj parts) = .ok answer := by
  cases request with
  | add p => exact ⟨.added, by rw [Request.answerFrom, Sentence.add_conj]; rfl⟩
  | entails query =>
      obtain ⟨e, -, hentails⟩ := examine_eq_entails (.conj parts) query {}
      exact ⟨.truth e.entailed, by rw [Request.answerFrom, hentails]; rfl⟩
  | satisfiable =>
      obtain ⟨e, -, hentails⟩ := examine_eq_entails (.conj parts) .falsum {}
      exact ⟨.truth !e.entailed, by rw [Request.answerFrom, satisfiable, hentails]; rfl⟩
  | classify query =>
      obtain ⟨k, -, hk, -⟩ := classify_report (.conj parts) query {}
      exact ⟨.report k.report, by rw [Request.answerFrom, hk]; rfl⟩
  | classifyAll queries =>
      obtain ⟨ks, -, hreports⟩ := mapM_classify_report (.conj parts) {} queries
      exact ⟨_, by rw [Request.answerFrom, hreports]; rfl⟩
  | models => exact ⟨_, by rw [Request.answerFrom, models_eq]; rfl⟩
  | symbols => exact ⟨_, rfl⟩
  | knowledge => exact ⟨_, rfl⟩
  | set key value => exact absurd rfl (h key value)

/-! ## A row of requests -/

/-- A context starts from a conjunction. -/
theorem knowledge_ofKnowledge (config : Config) (knowledge : Sentence) :
    (ofKnowledge config knowledge).knowledge = .conj knowledge.conjuncts := by
  cases knowledge <;> rfl

/-- The context that a row of requests leaves. -/
def after (c : Context) (requests : List Request) : Context :=
  requests.foldl (fun c request => (c.step request).context) c

theorem after_cons (c : Context) (request : Request) (requests : List Request) :
    c.after (request :: requests) = (c.step request).context.after requests :=
  rfl

theorem after_append (c : Context) (requests more : List Request) :
    c.after (requests ++ more) = (c.after requests).after more :=
  List.foldl_append

theorem run_append (requests more : List Request) : ∀ c : Context,
    c.run (requests ++ more) = c.run requests ++ (c.after requests).run more := by
  induction requests with
  | nil => exact fun _ => rfl
  | cons request requests ih =>
      intro c
      rw [List.cons_append, run, run, ih, after_cons, List.cons_append]

theorem length_run (requests : List Request) : ∀ c : Context,
    (c.run requests).length = requests.length := by
  induction requests with
  | nil => exact fun _ => rfl
  | cons request requests ih =>
      intro c
      rw [run, List.length_cons, List.length_cons, ih]

/-- What a row of requests does to a context that holds a conjunction: the configuration, the
knowledge and the tally after it. The tally counts the entailments that the requests have examined,
one after the other. -/
theorem after_eq (requests : List Request) : ∀ {c : Context} {parts : List Sentence},
    c.knowledge = .conj parts → ∃ es,
      (Request.checks c.config parts requests).mapM Check.examine = .ok es ∧
        c.after requests =
          ⟨requests.foldl Request.configure c.config, .conj (parts ++ Request.added requests),
            es.foldl Tally.count c.tally⟩ := by
  induction requests with
  | nil =>
      intro c parts hc
      refine ⟨[], rfl, ?_⟩
      rw [Request.added, List.filterMap_nil, List.append_nil, ← hc]
      rfl
  | cons request requests ih =>
      intro c parts hc
      obtain ⟨es, events, hes, hstep⟩ := c.step_eq_count request
      obtain ⟨more, hmore, hafter⟩ := ih (knowledge_step hc request)
      rw [hc] at hes
      rw [hstep] at hmore hafter
      refine ⟨es ++ more, ?_, ?_⟩
      · have hchecks : (request.queries.map fun query =>
            (⟨.conj parts, query, c.config⟩ : Check)).mapM Check.examine = .ok es := by
          rw [List.mapM_map]
          exact hes
        rw [Request.checks, List.mapM_append, hchecks, hmore]
        rfl
      · rw [after_cons, hstep, hafter, List.foldl_append, List.append_assoc,
          ← Request.added_append, List.singleton_append, List.foldl_cons]

/-- The reply at each place of a row is to the request there, from the context that those before
it leave. -/
theorem run_eq_step (request : Request) (before after : List Request) (c : Context) :
    (c.run (before ++ request :: after))[before.length]? = some ((c.after before).step request) := by
  have hplace : (c.run before).length = before.length := length_run before c
  rw [run_append, List.getElem?_append_right (Nat.le_of_eq hplace), hplace, Nat.sub_self, run]
  rfl

/-- A context answers every request as the procedures without a context do for the conjunction
of its first conjuncts and all sentences added so far, whatever was asked or set before, and it
refuses nothing but a setting. An addition is what `Sentence.add` makes of that conjunction, which
is never refused as it would be by a sentence of another kind. -/
theorem run_answer (config : Config) (knowledge : Sentence) (before after : List Request)
    (request : Request) :
    (ofKnowledge config knowledge).knowledge = .conj knowledge.conjuncts ∧
      ∃ reply,
        ((ofKnowledge config knowledge).run (before ++ request :: after))[before.length]? =
          some reply ∧
        reply.context.knowledge =
          .conj (knowledge.conjuncts ++ Request.added (before ++ [request])) ∧
        reply.answer = request.answerFrom (before.foldl Request.configure config)
          (.conj (knowledge.conjuncts ++ Request.added before)) ∧
        (∀ p, request = .add p →
          (Sentence.conj (knowledge.conjuncts ++ Request.added before)).add p =
            .ok reply.context.knowledge) ∧
        ((∀ key value, request ≠ .set key value) → ∃ answer, reply.answer = .ok answer) := by
  have hstart := knowledge_ofKnowledge config knowledge
  obtain ⟨es, -, hbefore⟩ := after_eq before hstart
  obtain ⟨tally, events, hstep⟩ :=
    ((ofKnowledge config knowledge).after before).step_eq request
  rw [hbefore, Request.extend_conj, List.append_assoc, ← Request.added_append] at hstep
  refine ⟨hstart, _, run_eq_step request before after _, ?_⟩
  rw [hbefore, hstep]
  refine ⟨rfl, rfl, fun p hadd => ?_, answerFrom_eq_ok _ _⟩
  rw [hadd, Request.added_append, ← List.append_assoc, Sentence.add_conj]
  rfl

end Context

end Consequence
