import Consequence.Command.Program
import Consequence.Proofs.Numeral

/-!
# Where the options stand

A command line is a row of groups, one for each option, with the name of a puzzle somewhere in it.
Reading it goes group by group: every group becomes one token, or the whole is refused
(`ofArguments?_commandLine`). A value that is an argument by itself is taken with the option in
front of it, whatever it is, so it cannot be mistaken for a puzzle or for the next option.

From there on places are forgotten. What is collected from the tokens depends only on which tokens
there are, and not on their order or side, as long as no option is given twice; `Options.Collects`
says so, and no two `Options` satisfy it for the same tokens. The settings are then made one by one
and touch different fields.

`parse_commandLine` puts this together. What the groups call for is said there by `CallsFor`, which
knows the values that are given, and neither tokens nor the order of any step. It leaves no choice
(`CallsFor.unique`).
-/

namespace Consequence.Command

/-! ## Options as they are given -/

inductive Flag where
  | parallel
  | stats
deriving DecidableEq

namespace Flag

def letter : Flag → Char
  | parallel => 'p'
  | stats => 's'

def name : Flag → String
  | parallel => "parallel"
  | stats => "stats"

def token : Flag → Token
  | parallel => .parallel
  | stats => .stats

end Flag

/-- The options that take a value. -/
inductive Valued where
  | depth
  | shuffle
deriving DecidableEq

namespace Valued

def name : Valued → String
  | depth => "parallel-depth"
  | shuffle => "shuffle"

def token : Valued → Nat → Token
  | depth, n => .depth n
  | shuffle, n => .shuffle (UInt64.ofNat n)

end Valued

/-- One option as it is given: a flag by its letter or its name, or an option with its value, which
is the next argument or stands in the same one after an equals sign. A value that is an argument by
itself does not start with a dash. -/
inductive Group where
  | letter (flag : Flag)
  | name (flag : Flag)
  | apart (option : Valued) (value : String) (hvalue : value.toList.head? ≠ some '-')
  | joined (option : Valued) (value : String)

namespace Group

def arguments : Group → List String
  | letter flag => [String.ofList ['-', flag.letter]]
  | name flag => ["--" ++ flag.name]
  | apart option value _ => ["--" ++ option.name, value]
  | joined option value => ["--" ++ option.name ++ "=" ++ value]

/-- Which option it is. -/
def option : Group → Flag ⊕ Valued
  | letter flag | name flag => .inl flag
  | apart option _ _ | joined option _ => .inr option

/-- The value that it brings, and the option that takes it. -/
def value? : Group → Option (Valued × String)
  | letter _ | name _ => none
  | apart option value _ | joined option value => some (option, value)

/-- What it is read as, if its value is a numeral. -/
def token? : Group → Option Token
  | letter flag | name flag => some flag.token
  | apart option value _ | joined option value =>
    (Text.readNumeral value.toList).map option.token

end Group

/-- A command line: the name of a puzzle, with options before and after it. -/
def commandLine (before : List Group) (puzzle : Puzzle.Name) (after : List Group) : List String :=
  before.flatMap Group.arguments ++ puzzle.text :: after.flatMap Group.arguments

/-! ## Tokens -/

namespace Token

/-- An argument that does not wait for a value is read by itself. -/
theorem ofArguments?_cons {argument : String} {token? : Option Token} (rest : List String)
    (hawaits : awaitsValue? argument = none) (hend : argument ≠ "--")
    (htoken : ofArgument? argument = token?.map ([·])) :
    ofArguments? (argument :: rest) = (do
      let token ← token?
      let tokens ← ofArguments? rest
      return token :: tokens) := by
  rw [ofArguments?, htoken]
  · cases token? <;> rfl
  · intro name value rest' hname
    rw [hawaits] at hname
    cases hname
  · exact fun heq => absurd heq hend

/-- An option that waits for its value takes the next argument, whatever it is. -/
theorem ofArguments?_value {argument name value : String} (rest : List String)
    (hawaits : awaitsValue? argument = some name) (hvalue : value.toList.head? ≠ some '-') :
    ofArguments? (argument :: value :: rest) = (do
      let token ← ofValue? name value.toList
      let tokens ← ofArguments? rest
      return token :: tokens) := by
  rw [ofArguments?]
  · exact if_neg hvalue
  · exact hawaits
  · exact nofun

theorem ofValue?_name (option : Valued) (value : List Char) :
    ofValue? option.name value = (Text.readNumeral value).map option.token := by
  cases option <;> rfl

theorem awaitsValue?_valued (option : Valued) :
    awaitsValue? ("--" ++ option.name) = some option.name := by
  cases option <;> decide

theorem not_mem_of_takesValue {name : String} (h : takesValue name = true) :
    '=' ∉ name.toList := by
  rw [takesValue, Bool.or_eq_true, beq_iff_eq, beq_iff_eq] at h
  rcases h with rfl | rfl <;> decide

section

variable (option : Valued) (value : String)

theorem toList_joined : ("--" ++ option.name ++ "=" ++ value).toList =
    '-' :: '-' :: (option.name.toList ++ '=' :: value.toList) := by
  rw [String.toList_append, String.toList_append, String.toList_append, List.append_assoc]
  rfl

/-- With its equals sign the argument is the name of no option. -/
theorem awaitsValue?_joined : awaitsValue? ("--" ++ option.name ++ "=" ++ value) = none := by
  unfold awaitsValue?
  rw [toList_joined]
  refine if_neg fun htakes => not_mem_of_takesValue htakes ?_
  rw [String.toList_ofList]
  exact List.mem_append_right _ List.mem_cons_self

theorem ofArgument?_joined : ofArgument? ("--" ++ option.name ++ "=" ++ value) =
    ((Text.readNumeral value.toList).map option.token).map ([·]) := by
  rw [← ofValue?_name]
  unfold ofArgument?
  rw [toList_joined]
  cases option <;> rfl

end

theorem ofArguments?_group (g : Group) (rest : List String) :
    ofArguments? (g.arguments ++ rest) = (do
      let token ← g.token?
      let tokens ← ofArguments? rest
      return token :: tokens) := by
  cases g with
  | letter flag => cases flag <;> exact ofArguments?_cons rest (by decide) (by decide) rfl
  | name flag => cases flag <;> exact ofArguments?_cons rest (by decide) (by decide) rfl
  | apart option value hvalue =>
      refine (ofArguments?_value rest (awaitsValue?_valued option) hvalue).trans ?_
      rw [ofValue?_name]
      rfl
  | joined option value =>
      refine ofArguments?_cons rest (awaitsValue?_joined option value) (fun hend => ?_)
        (ofArgument?_joined option value)
      have hlist := congrArg String.toList hend
      rw [toList_joined] at hlist
      simp at hlist

theorem ofArguments?_puzzle (puzzle : Puzzle.Name) (rest : List String) :
    ofArguments? (puzzle.text :: rest) = (do
      let tokens ← ofArguments? rest
      return .puzzle puzzle :: tokens) := by
  have htoken : ofArgument? puzzle.text = (some (Token.puzzle puzzle)).map ([·]) := by
    cases puzzle <;> decide
  cases puzzle <;> exact ofArguments?_cons rest (by decide) (by decide) htoken

theorem ofArguments?_flatMap (groups : List Group) (rest : List String) :
    ofArguments? (groups.flatMap Group.arguments ++ rest) = (do
      let these ← groups.mapM Group.token?
      let tokens ← ofArguments? rest
      return these ++ tokens) := by
  induction groups with
  | nil => simp
  | cons g groups ih =>
      rw [List.flatMap_cons, List.append_assoc, ofArguments?_group, ih, List.mapM_cons]
      cases g.token? with
      | none => rfl
      | some token =>
          cases groups.mapM Group.token? with
          | none => rfl
          | some these => cases ofArguments? rest <;> rfl

/-- A command line is read group by group. -/
theorem ofArguments?_commandLine (before : List Group) (puzzle : Puzzle.Name)
    (after : List Group) : ofArguments? (commandLine before puzzle after) = (do
      let these ← before.mapM Group.token?
      let those ← after.mapM Group.token?
      return these ++ .puzzle puzzle :: those) := by
  have hafter := ofArguments?_flatMap after []
  rw [List.append_nil] at hafter
  rw [commandLine, ofArguments?_flatMap, ofArguments?_puzzle, hafter, ofArguments?]
  cases before.mapM Group.token? with
  | none => rfl
  | some these =>
      cases after.mapM Group.token? with
      | none => rfl
      | some those => simp

end Token

section

variable {groups : List Group}

theorem mapM_token?_eq_some (h : ∀ g ∈ groups, g.token? ≠ none) :
    groups.mapM Group.token? = some (groups.filterMap Group.token?) := by
  induction groups with
  | nil => rfl
  | cons g groups ih =>
      obtain ⟨hg, hgroups⟩ := List.forall_mem_cons.1 h
      obtain ⟨token, htoken⟩ := Option.ne_none_iff_exists'.1 hg
      rw [List.mapM_cons, htoken, ih hgroups, List.filterMap_cons_some htoken]
      rfl

theorem mapM_token?_eq_none {g : Group} (hg : g ∈ groups) (h : g.token? = none) :
    groups.mapM Group.token? = none := by
  induction groups with
  | nil => cases hg
  | cons g' groups ih =>
      rw [List.mapM_cons]
      rcases List.mem_cons.1 hg with rfl | hg
      · rw [h]
        rfl
      · rw [ih hg]
        cases g'.token? <;> rfl

end

/-! ## Options among tokens -/

namespace Token

/-- Which option a token gives. -/
def option? : Token → Option (Flag ⊕ Valued)
  | puzzle _ => none
  | parallel => some (.inl .parallel)
  | stats => some (.inl .stats)
  | depth _ => some (.inr .depth)
  | shuffle _ => some (.inr .shuffle)

/-- No option is given twice. -/
def Distinct (tokens : List Token) : Prop :=
  tokens.Pairwise fun s t => s.option? ≠ t.option?

theorem depth?_eq_some_iff {t : Token} {n : Nat} : t.depth? = some n ↔ t = .depth n := by
  cases t <;> simp [depth?]

theorem seed?_eq_some_iff {t : Token} {seed : UInt64} :
    t.seed? = some seed ↔ t = .shuffle seed := by
  cases t <;> simp [seed?]

/-- What is read off the tokens of one option comes through as it stands among the tokens. -/
theorem exists_atMostOne_filterMap {α : Type} {f : Token → Option α} {option : Flag ⊕ Valued}
    (hf : ∀ {t a}, f t = some a → t.option? = some option) {tokens : List Token}
    (h : Distinct tokens) : ∃ a?, atMostOne (tokens.filterMap f) = some a? ∧
      ∀ a, a? = some a ↔ ∃ t ∈ tokens, f t = some a := by
  induction tokens with
  | nil => exact ⟨none, rfl, by simp⟩
  | cons t tokens ih =>
      obtain ⟨ht, htokens⟩ := List.pairwise_cons.1 h
      cases hft : f t with
      | none =>
          obtain ⟨a?, ha?, hmem⟩ := ih htokens
          exact ⟨a?, by rw [List.filterMap_cons_none hft, ha?], fun a => by simp [hmem, hft]⟩
      | some b =>
          -- No other token gives this option, so nothing else comes through.
          have hnone : ∀ t' ∈ tokens, f t' = none := by
            intro t' ht'
            by_contra hne
            obtain ⟨a, ha⟩ := Option.ne_none_iff_exists'.1 hne
            exact ht t' ht' ((hf hft).trans (hf ha).symm)
          refine ⟨some b, ?_, fun a => ?_⟩
          · rw [List.filterMap_cons_some hft, List.filterMap_eq_nil_iff.2 hnone]
            rfl
          · rw [← hft]
            constructor
            · exact fun ha => ⟨t, List.mem_cons_self, ha⟩
            · rintro ⟨t', ht', ha⟩
              rcases List.mem_cons.1 ht' with rfl | ht'
              · exact ha
              · rw [hnone t' ht'] at ha
                cases ha

theorem exists_atMostOne_filter (token : Token) {option : Flag ⊕ Valued}
    (hoption : token.option? = some option) {tokens : List Token} (h : Distinct tokens) :
    ∃ a?, atMostOne (tokens.filter (· = token)) = some a? ∧
      (a?.isSome = true ↔ token ∈ tokens) := by
  have hguard : ∀ {t a}, Option.guard (fun t => decide (t = token)) t = some a ↔
      t = a ∧ t = token := by
    simp [Option.guard_eq_some_iff]
  have hf : ∀ {t a}, Option.guard (fun t => decide (t = token)) t = some a →
      t.option? = some option := fun ha => (hguard.1 ha).2 ▸ hoption
  obtain ⟨a?, ha?, hmem⟩ := exists_atMostOne_filterMap hf h
  refine ⟨a?, by rw [← ha?, List.filterMap_eq_filter], ?_⟩
  simp [Option.isSome_iff_exists, hmem, hguard]

end Token

namespace Options

/-- The options hold what the given tokens say, and nothing else. -/
structure Collects (given : Token → Prop) (o : Options) : Prop where
  parallel : o.parallel = true ↔ given .parallel
  stats : o.stats = true ↔ given .stats
  depth : ∀ n, o.depth? = some n ↔ given (.depth n)
  seed : ∀ seed, o.seed? = some seed ↔ given (.shuffle seed)

theorem Collects.unique {given : Token → Prop} {o o' : Options} (h : o.Collects given)
    (h' : o'.Collects given) : o = o' := by
  cases o
  cases o'
  congr
  · exact Bool.eq_iff_iff.2 (h.parallel.trans h'.parallel.symm)
  · exact Bool.eq_iff_iff.2 (h.stats.trans h'.stats.symm)
  · exact Option.ext fun n => (h.depth n).trans (h'.depth n).symm
  · exact Option.ext fun seed => (h.seed seed).trans (h'.seed seed).symm

theorem Collects.congr {given given' : Token → Prop} {o : Options} (h : o.Collects given)
    (hgiven : ∀ t option, t.option? = some option → (given t ↔ given' t)) :
    o.Collects given' where
  parallel := h.parallel.trans (hgiven _ _ rfl)
  stats := h.stats.trans (hgiven _ _ rfl)
  depth n := (h.depth n).trans (hgiven _ _ rfl)
  seed seed := (h.seed seed).trans (hgiven _ _ rfl)

theorem exists_ofTokens? {tokens : List Token} (h : Token.Distinct tokens) :
    ∃ o, ofTokens? tokens = some o ∧ o.Collects (· ∈ tokens) := by
  obtain ⟨parallel?, hparallel?, hparallel⟩ := Token.exists_atMostOne_filter .parallel rfl h
  obtain ⟨stats?, hstats?, hstats⟩ := Token.exists_atMostOne_filter .stats rfl h
  obtain ⟨depth?, hdepth?, hdepth⟩ := Token.exists_atMostOne_filterMap
    (fun ht => congrArg Token.option? (Token.depth?_eq_some_iff.1 ht)) h
  obtain ⟨seed?, hseed?, hseed⟩ := Token.exists_atMostOne_filterMap
    (fun ht => congrArg Token.option? (Token.seed?_eq_some_iff.1 ht)) h
  refine ⟨⟨parallel?.isSome, stats?.isSome, depth?, seed?⟩, ?_, hparallel, hstats,
    fun n => ?_, fun seed => ?_⟩
  · rw [ofTokens?, hparallel?, hstats?, hdepth?, hseed?]
    rfl
  · simp [hdepth, Token.depth?_eq_some_iff]
  · simp [hseed, Token.seed?_eq_some_iff]

theorem orElse_eq_some_iff {α : Type} {first second : Option α} {a : α}
    (h : ∀ b c, first = some b → second ≠ some c) :
    (second <|> first) = some a ↔ first = some a ∨ second = some a := by
  cases hsecond : second with
  | none => simp
  | some c =>
      refine (or_iff_right fun hfirst => h a c hfirst hsecond).symm

/-- Options given on two sides are those given on either, as none is given on both. -/
theorem collects_followedBy {tokens tokens' : List Token} {o o' : Options}
    (h : o.Collects (· ∈ tokens)) (h' : o'.Collects (· ∈ tokens'))
    (hdistinct : Token.Distinct (tokens ++ tokens')) :
    (o.followedBy o').Collects (· ∈ tokens ++ tokens') := by
  have hcross := (List.pairwise_append.1 hdistinct).2.2
  refine ⟨?_, ?_, fun n => ?_, fun seed => ?_⟩
  · rw [followedBy, Bool.or_eq_true, h.parallel, h'.parallel, List.mem_append]
  · rw [followedBy, Bool.or_eq_true, h.stats, h'.stats, List.mem_append]
  · rw [List.mem_append, ← h.depth, ← h'.depth]
    exact orElse_eq_some_iff fun b c hb hc =>
      hcross _ ((h.depth b).1 hb) _ ((h'.depth c).1 hc) rfl
  · rw [List.mem_append, ← h.seed, ← h'.seed]
    exact orElse_eq_some_iff fun b c hb hc =>
      hcross _ ((h.seed b).1 hb) _ ((h'.seed c).1 hc) rfl

end Options

/-! ## The tokens of groups -/

section

variable {groups before after : List Group}

theorem option?_of_token?_eq {g : Group} {t : Token} (h : g.token? = some t) :
    t.option? = some g.option := by
  cases g with
  | letter flag => cases flag <;> cases h <;> rfl
  | name flag => cases flag <;> cases h <;> rfl
  | apart option value _ | joined option value =>
      obtain ⟨n, -, rfl⟩ := Option.map_eq_some_iff.1 h
      cases option <;> rfl

theorem distinct_filterMap_token? (h : (groups.map Group.option).Nodup) :
    Token.Distinct (groups.filterMap Group.token?) := by
  have hpairwise : groups.Pairwise fun g g' => g.option ≠ g'.option := List.pairwise_map.1 h
  refine hpairwise.filterMap _ fun g g' hne t ht t' ht' heq => hne ?_
  rw [option?_of_token?_eq ht, option?_of_token?_eq ht'] at heq
  exact Option.some.inj heq

theorem puzzle?_of_token?_eq {g : Group} {t : Token} (h : g.token? = some t) :
    t.puzzle? = none := by
  have hoption := option?_of_token?_eq h
  cases t with
  | puzzle name => cases hoption
  | parallel | stats | depth _ | shuffle _ => rfl

/-- Options on both sides of a puzzle are collected as if they stood together. -/
theorem exists_ofTokens?_puzzle {tokens tokens' : List Token} (puzzle : Puzzle.Name)
    (h : Token.Distinct (tokens ++ tokens'))
    (hpuzzle : ∀ t ∈ tokens ++ tokens', t.puzzle? = none) :
    ∃ o, Arguments.ofTokens? (tokens ++ .puzzle puzzle :: tokens') = some ⟨puzzle, o⟩ ∧
      o.Collects (· ∈ tokens ++ tokens') := by
  obtain ⟨htokens, htokens', -⟩ := List.pairwise_append.1 h
  obtain ⟨hpuzzle, hpuzzle'⟩ := List.forall_mem_append.1 hpuzzle
  -- The options behind the puzzle are read with the puzzle in front, which is none of them.
  have hafter : Token.Distinct (.puzzle puzzle :: tokens') := by
    refine List.pairwise_cons.2 ⟨fun t ht heq => ?_, htokens'⟩
    have hnone := hpuzzle' t ht
    cases t with
    | puzzle name => cases hnone
    | parallel | stats | depth _ | shuffle _ => cases heq
  obtain ⟨o, ho, hcollects⟩ := Options.exists_ofTokens? htokens
  obtain ⟨o', ho', hcollects'⟩ := Options.exists_ofTokens? hafter
  have hbehind : o'.Collects (· ∈ tokens') := hcollects'.congr fun t option hoption => by
    rw [List.mem_cons, or_iff_right]
    rintro rfl
    cases hoption
  refine ⟨o.followedBy o', ?_, Options.collects_followedBy hcollects hbehind h⟩
  have hisNone : ∀ t ∈ tokens, t.puzzle?.isNone = true := fun t ht => by
    rw [hpuzzle t ht, Option.isNone_none]
  have hone : (tokens ++ .puzzle puzzle :: tokens').filterMap Token.puzzle? = [puzzle] := by
    rw [List.filterMap_append, List.filterMap_eq_nil_iff.2 hpuzzle, List.nil_append]
    exact congrArg (puzzle :: ·) (List.filterMap_eq_nil_iff.2 hpuzzle')
  have htake : (tokens ++ .puzzle puzzle :: tokens').takeWhile (·.puzzle?.isNone) = tokens :=
    (List.takeWhile_append_of_pos hisNone).trans (List.append_nil tokens)
  have hdrop : (tokens ++ .puzzle puzzle :: tokens').dropWhile (·.puzzle?.isNone) =
      .puzzle puzzle :: tokens' := List.dropWhile_append_of_pos hisNone
  rw [Arguments.ofTokens?, hone, htake, hdrop, ho, ho']
  rfl

theorem read?_commandLine_eq_none (puzzle : Puzzle.Name) {g : Group} (hg : g ∈ before ++ after)
    (h : g.token? = none) : Arguments.read? (commandLine before puzzle after) = none := by
  rw [Arguments.read?, Token.ofArguments?_commandLine]
  rcases List.mem_append.1 hg with hg | hg
  · rw [mapM_token?_eq_none hg h]
    rfl
  · rw [mapM_token?_eq_none hg h]
    cases before.mapM Group.token? <;> rfl

/-- If every group can be read, the arguments are the puzzle and the options of all groups. -/
theorem exists_read?_commandLine (before : List Group) (puzzle : Puzzle.Name)
    (after : List Group) (hdistinct : ((before ++ after).map Group.option).Nodup)
    (h : ∀ g ∈ before ++ after, g.token? ≠ none) :
    ∃ o, Arguments.read? (commandLine before puzzle after) = some ⟨puzzle, o⟩ ∧
      o.Collects fun t => ∃ g ∈ before ++ after, g.token? = some t := by
  obtain ⟨hbefore, hafter⟩ := List.forall_mem_append.1 h
  have hmem : ∀ t, t ∈ before.filterMap Group.token? ++ after.filterMap Group.token? ↔
      ∃ g ∈ before ++ after, g.token? = some t := by
    intro t
    rw [← List.filterMap_append, List.mem_filterMap]
  have htokens := distinct_filterMap_token? hdistinct
  rw [List.filterMap_append] at htokens
  obtain ⟨o, ho, hcollects⟩ := exists_ofTokens?_puzzle puzzle htokens fun t ht => by
    obtain ⟨g, -, hg⟩ := (hmem t).1 ht
    exact puzzle?_of_token?_eq hg
  refine ⟨o, ?_, hcollects.congr fun t _ _ => hmem t⟩
  rw [Arguments.read?, Token.ofArguments?_commandLine, mapM_token?_eq_some hbefore,
    mapM_token?_eq_some hafter]
  exact ho

end

/-! ## Settings -/

/-- The default configuration with the settings changed that are given. A seed asks for the
shuffled order too. -/
def configWith (parallel : Bool) (depth? : Option Nat) (seed? : Option UInt64) : Config :=
  let config : Config := {}
  let config := if parallel then { config with parallel.value := true } else config
  let config :=
    match depth? with
    | some depth => { config with parallelDepth.value := depth }
    | none => config
  match seed? with
  | some seed => { config with symbolOrder.value := .shuffled, seed.value := seed }
  | none => config

section

variable {config : Config} (key : Config.Key) {value : key.Value}

theorem set_eq_ok
    (hleast : SettingValue.rank (config.setting key).least ≤ SettingValue.rank value)
    (hgreatest : SettingValue.rank value ≤ SettingValue.rank (config.setting key).greatest) :
    config.set key value =
      .ok (config.withSetting key { config.setting key with value := value }) := by
  rw [Config.set, Setting.set, if_pos ⟨hleast, hgreatest⟩]
  rfl

theorem set_eq_error
    (h : SettingValue.rank (config.setting key).greatest < SettingValue.rank value) :
    config.set key value = .error (.outOfBounds (config.setting key).name
      (SettingValue.text (config.setting key).least)
      (SettingValue.text (config.setting key).greatest)) := by
  rw [Config.set, Setting.set, if_neg fun hbounds => Nat.not_le_of_lt h hbounds.2]
  rfl

end

theorem config_eq_ok (o : Options) (h : ∀ n, o.depth? = some n → n ≤ 16) :
    o.config = .ok (configWith o.parallel o.depth? o.seed?) := by
  obtain ⟨parallel, stats, depth?, seed?⟩ := o
  have hseed : ∀ seed : UInt64, seed.toNat ≤ UInt64.toNat 18446744073709551615 :=
    fun seed => Nat.le_of_lt_succ seed.toNat_lt
  cases parallel <;> cases depth? with
  | none =>
      cases seed? with
      | none => rfl
      | some seed => exact set_eq_ok .seed (Nat.zero_le _) (hseed seed)
  | some n =>
      refine (congrArg (· >>= _) (set_eq_ok .parallelDepth (Nat.zero_le n) (h n rfl))).trans ?_
      cases seed? with
      | none => rfl
      | some seed => exact set_eq_ok .seed (Nat.zero_le _) (hseed seed)

theorem config_eq_error (o : Options) {n : Nat} (hdepth : o.depth? = some n) (h : 16 < n) :
    o.config = .error (.outOfBounds "parallel_depth" "0" "16") := by
  obtain ⟨parallel, stats, depth?, seed?⟩ := o
  cases hdepth
  cases parallel <;> exact congrArg (· >>= _) (set_eq_error .parallelDepth h)

/-! ## What the groups call for -/

/-- What a command line comes to before a puzzle is played: `none` where it is refused, else an
error of the settings, or the puzzle, whether the statistics are asked for, and the
configuration. -/
def parse? (arguments : List String) :
    Option (Except Error (Puzzle.Name × Bool × Config)) :=
  (Arguments.read? arguments).map fun a => do
    return (a.puzzle, a.options.stats, ← a.options.config)

/-- Nothing else of a command line counts for a run of the program. -/
theorem run_eq (arguments : List String) : run arguments =
    match parse? arguments with
    | none => { exitCode := 2 }
    | some (.error e) => { exitCode := 1, body := ["c " ++ e.message] }
    | some (.ok (puzzle, stats, config)) => play ⟨puzzle, { stats := stats }⟩ config := by
  unfold run parse?
  cases Arguments.read? arguments with
  | none => rfl
  | some a =>
      simp only [Option.map_some]
      cases a.options.config <;> rfl

/-- One of the groups gives the option this value. -/
def Gives (groups : List Group) (option : Valued) (value : String) : Prop :=
  ∃ g ∈ groups, g.value? = some (option, value)

/-- What a command line with these groups has to come to, said without a look at their places. -/
inductive CallsFor (puzzle : Puzzle.Name) (groups : List Group) :
    Option (Except Error (Puzzle.Name × Bool × Config)) → Prop where
  /-- One of the values is no numeral. -/
  | refused {option : Valued} {value : String} (hgives : Gives groups option value)
      (hvalue : ∀ n, ¬ Text.Spells value.toList n) : CallsFor puzzle groups none
  /-- All values are numerals, and the depth is beyond its bound. -/
  | outOfBounds
      (hnumerals : ∀ option value, Gives groups option value → ∃ n, Text.Spells value.toList n)
      {value : String} {n : Nat} (hgives : Gives groups .depth value)
      (hvalue : Text.Spells value.toList n) (hdepth : 16 < n) :
      CallsFor puzzle groups (some (.error (.outOfBounds "parallel_depth" "0" "16")))
  /-- All values are numerals that can be set. -/
  | accepted
      (hnumerals : ∀ option value, Gives groups option value → ∃ n, Text.Spells value.toList n)
      {depth? : Option Nat} {seed? : Option UInt64}
      (hdepth : ∀ n, depth? = some n ↔
        ∃ value, Gives groups .depth value ∧ Text.Spells value.toList n)
      (hbound : ∀ n, depth? = some n → n ≤ 16)
      (hseed : ∀ seed : UInt64, seed? = some seed ↔
        ∃ value, Gives groups .shuffle value ∧ Text.Spells value.toList seed.toNat) :
      CallsFor puzzle groups (some (.ok
        (puzzle, groups.any (·.option = .inl .stats),
          configWith (groups.any (·.option = .inl .parallel)) depth? seed?)))

namespace CallsFor

variable {puzzle : Puzzle.Name} {groups : List Group}
  {result result' : Option (Except Error (Puzzle.Name × Bool × Config))}

theorem eq_none (h : CallsFor puzzle groups result) {option : Valued} {value : String}
    (hgives : Gives groups option value) (hvalue : ∀ n, ¬ Text.Spells value.toList n) :
    result = none := by
  cases h with
  | refused => rfl
  | outOfBounds hnumerals | accepted hnumerals =>
      obtain ⟨n, hn⟩ := hnumerals option value hgives
      exact absurd hn (hvalue n)

/-- The groups settle what they call for. -/
theorem unique (h : CallsFor puzzle groups result) (h' : CallsFor puzzle groups result') :
    result = result' := by
  have hcalls := h
  cases h with
  | refused hgives hvalue => exact (h'.eq_none hgives hvalue).symm
  | outOfBounds _ hgives hvalue hlarge =>
      cases h' with
      | refused hgives' hvalue' => exact hcalls.eq_none hgives' hvalue'
      | outOfBounds => rfl
      | accepted _ hdepth hbound =>
          exact absurd (hbound _ ((hdepth _).2 ⟨_, hgives, hvalue⟩)) (Nat.not_le_of_lt hlarge)
  | accepted _ hdepth hbound hseed =>
      cases h' with
      | refused hgives' hvalue' => exact hcalls.eq_none hgives' hvalue'
      | outOfBounds _ hgives hvalue hlarge =>
          exact absurd (hbound _ ((hdepth _).2 ⟨_, hgives, hvalue⟩)) (Nat.not_le_of_lt hlarge)
      | accepted _ hdepth' _ hseed' =>
          rw [Option.ext fun n => (hdepth n).trans (hdepth' n).symm,
            Option.ext fun seed => (hseed seed).trans (hseed' seed).symm]

end CallsFor

section

variable {g : Group}

theorem token?_eq_flag_iff {flag : Flag} :
    g.token? = some flag.token ↔ g.option = .inl flag := by
  cases g with
  | letter flag' | name flag' =>
      cases flag <;> cases flag' <;> simp [Group.token?, Group.option, Flag.token]
  | apart option value _ | joined option value =>
      cases flag <;> cases option <;>
        simp [Group.token?, Group.option, Flag.token, Valued.token]

theorem token?_eq_depth_iff {n : Nat} : g.token? = some (.depth n) ↔
    ∃ value, g.value? = some (.depth, value) ∧ Text.Spells value.toList n := by
  cases g with
  | letter flag | name flag => cases flag <;> simp [Group.token?, Group.value?, Flag.token]
  | apart option value _ | joined option value =>
      cases option <;>
        simp [Group.token?, Group.value?, Valued.token, ← Text.readNumeral_eq_some_iff]

theorem exists_ofNat_eq_iff {text : List Char} {seed : UInt64} :
    (∃ n, Text.readNumeral text = some n ∧ UInt64.ofNat n = seed) ↔
      Text.readNumeral text = some seed.toNat := by
  constructor
  · rintro ⟨n, hn, rfl⟩
    obtain ⟨-, -, -, -, hlt⟩ := Text.readNumeral_eq_some_iff.1 hn
    rw [hn, UInt64.toNat_ofNat_of_lt' hlt]
  · exact fun h => ⟨seed.toNat, h, UInt64.ofNat_toNat⟩

theorem token?_eq_shuffle_iff {seed : UInt64} : g.token? = some (.shuffle seed) ↔
    ∃ value, g.value? = some (.shuffle, value) ∧ Text.Spells value.toList seed.toNat := by
  cases g with
  | letter flag | name flag => cases flag <;> simp [Group.token?, Group.value?, Flag.token]
  | apart option value _ | joined option value =>
      cases option <;>
        simp [Group.token?, Group.value?, Valued.token, ← Text.readNumeral_eq_some_iff,
          exists_ofNat_eq_iff]

theorem token?_eq_none_iff : g.token? = none ↔
    ∃ option value, g.value? = some (option, value) ∧ ∀ n, ¬ Text.Spells value.toList n := by
  cases g with
  | letter flag | name flag => simp [Group.token?, Group.value?]
  | apart option value _ | joined option value =>
      simp [Group.token?, Group.value?, ← Text.readNumeral_eq_some_iff,
        Option.eq_none_iff_forall_ne_some]

end

theorem exists_flag_iff (flag : Flag) {groups : List Group} :
    (∃ g ∈ groups, g.token? = some flag.token) ↔
      groups.any (·.option = .inl flag) = true := by
  simp only [List.any_eq_true, decide_eq_true_iff, token?_eq_flag_iff]

theorem exists_gives_iff {groups : List Group} {option : Valued} {P : String → Prop} :
    (∃ g ∈ groups, ∃ value, g.value? = some (option, value) ∧ P value) ↔
      ∃ value, Gives groups option value ∧ P value := by
  constructor
  · rintro ⟨g, hg, value, hvalue, h⟩
    exact ⟨value, ⟨g, hg, hvalue⟩, h⟩
  · rintro ⟨value, ⟨g, hg, hvalue⟩, h⟩
    exact ⟨g, hg, value, hvalue, h⟩

/-- The options of readable groups call for the result that comes of them. -/
theorem callsFor_of_collects {puzzle : Puzzle.Name} {groups : List Group} {o : Options}
    (hread : ∀ g ∈ groups, g.token? ≠ none)
    (h : o.Collects fun t => ∃ g ∈ groups, g.token? = some t) :
    CallsFor puzzle groups (some ((puzzle, o.stats, ·) <$> o.config)) := by
  have hnumerals : ∀ option value, Gives groups option value →
      ∃ n, Text.Spells value.toList n := by
    rintro option value ⟨g, hg, hvalue⟩
    by_contra hnone
    exact hread g hg (token?_eq_none_iff.2 ⟨option, value, hvalue, not_exists.1 hnone⟩)
  have hdepth : ∀ n, o.depth? = some n ↔
      ∃ value, Gives groups .depth value ∧ Text.Spells value.toList n := by
    intro n
    simp only [h.depth, token?_eq_depth_iff, exists_gives_iff]
  by_cases hlarge : ∃ n, o.depth? = some n ∧ 16 < n
  · obtain ⟨n, hn, hlarge⟩ := hlarge
    obtain ⟨value, hgives, hvalue⟩ := (hdepth n).1 hn
    rw [config_eq_error o hn hlarge]
    exact .outOfBounds hnumerals hgives hvalue hlarge
  · have hbound : ∀ n, o.depth? = some n → n ≤ 16 := fun n hn =>
      Nat.not_lt.1 fun hlt => hlarge ⟨n, hn, hlt⟩
    have hseed : ∀ seed : UInt64, o.seed? = some seed ↔
        ∃ value, Gives groups .shuffle value ∧ Text.Spells value.toList seed.toNat := by
      intro seed
      simp only [h.seed, token?_eq_shuffle_iff, exists_gives_iff]
    have hstats : o.stats = groups.any (·.option = .inl .stats) :=
      Bool.eq_iff_iff.2 (h.stats.trans (exists_flag_iff .stats))
    have hparallel : o.parallel = groups.any (·.option = .inl .parallel) :=
      Bool.eq_iff_iff.2 (h.parallel.trans (exists_flag_iff .parallel))
    rw [config_eq_ok o hbound, hstats, hparallel]
    exact .accepted hnumerals hdepth hbound hseed

/-- Where options stand does not matter. A collection of options, none of them given twice, calls
for one result, and every command line comes to it that has these options in some order and the
name of the puzzle anywhere between them. -/
theorem parse_commandLine (puzzle : Puzzle.Name) {groups : List Group}
    (hdistinct : (groups.map Group.option).Nodup) :
    ∃ result, CallsFor puzzle groups result ∧
      ∀ before after, (before ++ after).Perm groups →
        parse? (commandLine before puzzle after) = result := by
  by_cases hread : ∃ g ∈ groups, g.token? = none
  · obtain ⟨g, hg, hnone⟩ := hread
    obtain ⟨option, value, hvalue, hnumeral⟩ := token?_eq_none_iff.1 hnone
    refine ⟨none, .refused ⟨g, hg, hvalue⟩ hnumeral, fun before after hperm => ?_⟩
    rw [parse?, read?_commandLine_eq_none puzzle (hperm.mem_iff.2 hg) hnone]
    rfl
  · have hread : ∀ g ∈ groups, g.token? ≠ none := fun g hg hnone => hread ⟨g, hg, hnone⟩
    have hgroups := groups.append_nil
    obtain ⟨o, -, ho⟩ := exists_read?_commandLine groups puzzle []
      (by rwa [hgroups]) (by rwa [hgroups])
    rw [hgroups] at ho
    refine ⟨_, callsFor_of_collects hread ho, fun before after hperm => ?_⟩
    obtain ⟨o', hread', ho'⟩ := exists_read?_commandLine before puzzle after
      ((hperm.map Group.option).nodup_iff.2 hdistinct) fun g hg => hread g (hperm.mem_iff.1 hg)
    have heq : o' = o := by
      refine (ho'.congr fun t _ _ => ?_).unique ho
      simp only [hperm.mem_iff]
    rw [parse?, hread', heq]
    rfl

/-- Three options around the puzzle, and all of them in front of it in another order. -/
theorem parse_commandLine_clue :
    ([Group.letter .parallel, .apart .depth "+3" (by decide), .joined .shuffle "7"].map
      Group.option).Nodup ∧
    (∃ result, CallsFor .clue
        [.letter .parallel, .apart .depth "+3" (by decide), .joined .shuffle "7"] result ∧
      parse? ["-p", "clue", "--parallel-depth", "+3", "--shuffle=7"] = result ∧
      parse? ["--shuffle=7", "--parallel-depth", "+3", "-p", "clue"] = result) ∧
    parse? ["-p", "clue", "--parallel-depth", "+3", "--shuffle=7"] =
      some (.ok (.clue, false, configWith true (some 3) (some 7))) := by
  have hdistinct : ([Group.letter .parallel, .apart .depth "+3" (by decide),
      .joined .shuffle "7"].map Group.option).Nodup := by decide
  obtain ⟨result, hresult, hparse⟩ := parse_commandLine .clue hdistinct
  refine ⟨hdistinct, ⟨result, hresult, ?_, ?_⟩, rfl⟩
  · exact hparse [.letter .parallel] [.apart .depth "+3" (by decide), .joined .shuffle "7"]
      (.refl _)
  · refine hparse [.joined .shuffle "7", .apart .depth "+3" (by decide), .letter .parallel] [] ?_
    exact List.reverse_perm
      [Group.letter .parallel, .apart .depth "+3" (by decide), .joined .shuffle "7"]

end Consequence.Command
