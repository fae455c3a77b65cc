import Consequence.Proofs.Tally
import Consequence.Puzzle.Play

/-!
# The transcript of a puzzle

What is printed while a puzzle is played is told here without a context: for each stage its heading,
and a line for each symbol with the report on it, relative to the sentences of this stage and of
those before it. A report is right or wrong by itself, and only one is right, so the transcript has
no place for a configuration. `play_eq_transcript` says that a play on no knowledge prints it, in
every configuration, and counts as many examinations each time.

A stage is followed through the context by `Stage.play_eq`. The induction over the stages,
`playStages_eq`, then says what the rest of a puzzle prints if the context has the sentences of the
stages before. That the tally of valuations is left open there is the point: it is the one thing that
a configuration changes.
-/

namespace Consequence

/-! ## What is printed -/

/-- The line of a report on a query: the formula and the report, green for yes and red for no, yellow
where the knowledge is inconsistent, and without a colour where the query is undetermined. -/
def Report.line (query : Sentence) : Report → String
  | present => Text.Emphasis.green.apply (query.formula ++ ": YES")
  | absent => Text.Emphasis.red.apply (query.formula ++ ": NO")
  | undetermined => query.formula ++ ": MAYBE"
  | inconsistent => Text.Emphasis.yellow.apply (query.formula ++ ": INCONSISTENT")

theorem Classification.line_eq (k : Classification) : k.line = k.report.line k.query := by
  rw [line]
  cases k.report <;>
    (simp only [Report.text, Report.emphasis?, Report.line, String.append_assoc]; rfl)

namespace Puzzle

/-- What is known after so many stages: the conjunction of their sentences. -/
def knowledge (puzzle : Puzzle) (count : Nat) : Sentence :=
  .conj ((puzzle.stages.take count).flatMap (·.sentences))

/-- The lines of a stage, the one with so many others before it: the heading, and in the order of the
symbols the reports on them, relative to what is known after the stage. -/
def linesOf (puzzle : Puzzle) (report : Sentence → Sentence → Report) (stage : Stage)
    (before : Nat) : List String :=
  stage.heading ++
    puzzle.symbols.map fun symbol => (report (puzzle.knowledge (before + 1)) symbol).line symbol

/-- The lines of all stages. -/
def transcript (puzzle : Puzzle) (report : Sentence → Sentence → Report) : List String :=
  puzzle.stages.zipIdx.flatMap fun (stage, i) => puzzle.linesOf report stage i

end Puzzle

/-! ## Playing a stage -/

/-- A context that holds a conjunction takes all of a row of sentences. -/
theorem Context.foldlM_add (ps : List Sentence) : ∀ {c : Context} {parts : List Sentence},
    c.knowledge = .conj parts →
    ps.foldlM add c = .ok ⟨c.config, .conj (parts ++ ps), c.tally⟩ := by
  induction ps with
  | nil =>
      intro c parts hc
      rw [List.append_nil, ← hc]
      rfl
  | cons p ps ih =>
      intro c parts hc
      have hadd : c.add p = .ok ⟨c.config, .conj (parts ++ [p]), c.tally⟩ := by
        rw [add, hc, Sentence.add_conj]
        rfl
      rw [List.foldlM_cons, hadd, List.append_cons parts p ps]
      exact ih (c := ⟨c.config, .conj (parts ++ [p]), c.tally⟩) rfl

section

variable {report : Sentence → Sentence → Report}
  (hreport : ∀ knowledge query, (report knowledge query).Describes knowledge query)

include hreport

theorem mapM_classify_lines (knowledge : Sentence) (config : Config) (queries : List Sentence) :
    ∃ ks, queries.mapM (classify knowledge · config) = .ok ks ∧
      ks.map (·.line) = queries.map fun query => (report knowledge query).line query := by
  obtain ⟨ks, hks, hreports⟩ := mapM_classify_report knowledge config queries
  rw [mapM_classify_eq hreport] at hreports
  refine ⟨ks, hks, ?_⟩
  calc ks.map (·.line)
      = (ks.map fun k => (k.query, k.report)).map fun entry => entry.2.line entry.1 := by
        rw [List.map_map]
        exact List.map_congr_left fun k _ => k.line_eq
    _ = (queries.map fun query => (query, report knowledge query)).map
          fun entry => entry.2.line entry.1 := by rw [Except.ok.inj hreports]
    _ = queries.map fun query => (report knowledge query).line query := List.map_map

/-- To play a stage is to print the heading and the reports on the symbols, by two examinations for
each of them, relative to the knowledge with the sentences of the stage. -/
theorem Stage.play_eq (stage : Stage) (symbols : List Sentence) {c : Context}
    {parts : List Sentence} (hc : c.knowledge = .conj parts) : ∃ tally,
    stage.play symbols c =
        .ok (stage.heading ++ symbols.map (fun symbol =>
            (report (.conj (parts ++ stage.sentences)) symbol).line symbol),
          ⟨c.config, .conj (parts ++ stage.sentences), tally⟩) ∧
      tally.queries = c.tally.queries + 2 * symbols.length := by
  obtain ⟨ks, hks, hlines⟩ := mapM_classify_lines hreport (.conj (parts ++ stage.sentences))
    c.config symbols
  have hadd : stage.addTo c = .ok ⟨c.config, .conj (parts ++ stage.sentences), c.tally⟩ :=
    Context.foldlM_add stage.sentences hc
  have hall : Context.classifyAll ⟨c.config, .conj (parts ++ stage.sentences), c.tally⟩ symbols =
      .ok (ks, ⟨c.config, .conj (parts ++ stage.sentences),
        ks.foldl Tally.countBoth c.tally⟩) := Context.classifyAll_eq_count hks
  refine ⟨ks.foldl Tally.countBoth c.tally, ?_, ?_⟩
  · simp only [play, hadd, bind, Except.bind, hall, ← hlines]
    rfl
  · rw [Tally.queries_foldl_countBoth, length_of_mapM_eq_ok hks]

/-- The stages that are left, played on what the stages before them brought. -/
theorem Puzzle.playStages_eq (puzzle : Puzzle) (stages : List Stage) : ∀ (before : List Stage)
    (c : Context), puzzle.stages = before ++ stages →
    c.knowledge = .conj (before.flatMap (·.sentences)) → ∃ tally,
      playStages puzzle.symbols stages c =
          .ok ((stages.zipIdx before.length).flatMap fun (stage, i) =>
              puzzle.linesOf report stage i,
            ⟨c.config, .conj (puzzle.stages.flatMap (·.sentences)), tally⟩) ∧
        tally.queries = c.tally.queries + 2 * puzzle.symbols.length * stages.length := by
  induction stages with
  | nil =>
      intro before c hstages hc
      rw [List.append_nil] at hstages
      refine ⟨c.tally, ?_, rfl⟩
      rw [hstages, ← hc]
      rfl
  | cons stage stages ih =>
      intro before c hstages hc
      obtain ⟨tally, hplay, hqueries⟩ := stage.play_eq hreport puzzle.symbols hc
      have hbefore : puzzle.stages = (before ++ [stage]) ++ stages := by
        rw [hstages, List.append_assoc, List.singleton_append]
      have hknown : before.flatMap (·.sentences) ++ stage.sentences =
          (before ++ [stage]).flatMap (·.sentences) := by
        rw [List.flatMap_append, List.flatMap_singleton]
      have hlength : (before ++ [stage]).length = before.length + 1 := List.length_append
      have hknowledge : puzzle.knowledge (before.length + 1) =
          .conj ((before ++ [stage]).flatMap (·.sentences)) := by
        rw [knowledge, hbefore, ← hlength, List.take_left]
      rw [hknown, ← hknowledge] at hplay
      obtain ⟨tally', hrest, hqueries'⟩ := ih (before ++ [stage])
        ⟨c.config, puzzle.knowledge (before.length + 1), tally⟩ hbefore hknowledge
      refine ⟨tally', ?_, ?_⟩
      · rw [hlength] at hrest
        rw [playStages, hplay, List.zipIdx_cons, List.flatMap_cons]
        simp only [bind, Except.bind, hrest]
        rfl
      · rw [hqueries', hqueries, List.length_cons, Nat.mul_succ]
        omega

end

/-- The configuration does not show in what is printed. There is one report on each query for each
knowledge, the one that is right, and a puzzle that is played on no knowledge prints these in any
configuration: after each stage, in the order of the symbols, relative to the sentences of the
stages so far. Each symbol takes two examinations at each stage. -/
theorem Puzzle.play_eq_transcript (puzzle : Puzzle) :
    ∃ report : Sentence → Sentence → Report,
      (∀ knowledge query, (report knowledge query).Describes knowledge query) ∧
      ∀ config : Config, ∃ tally,
        puzzle.play { config := config } =
            .ok (puzzle.transcript report,
              ⟨config, .conj (puzzle.stages.flatMap (·.sentences)), tally⟩) ∧
          tally.queries = 2 * puzzle.symbols.length * puzzle.stages.length := by
  obtain ⟨report, hreport⟩ := exists_describes
  refine ⟨report, hreport, fun config => ?_⟩
  obtain ⟨tally, hplay, hqueries⟩ := playStages_eq hreport puzzle puzzle.stages []
    { config := config } rfl rfl
  exact ⟨tally, hplay, by rw [hqueries, Nat.zero_add]⟩

end Consequence
