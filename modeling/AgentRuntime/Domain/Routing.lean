import AgentRuntime.Domain.Floats
import AgentRuntime.Domain.Retry
import AgentRuntime.Lib.Fallible
import AgentRuntime.Lib.Ranking

/-!
# Provider routing

A policy names candidate providers and a strategy; the router ranks the candidates that are
available by the metrics of a catalog and explains its choice. Each strategy sorts by a tuple that
ends with the provider's name, so that the ranking does not depend on the order of the candidates,
as long as no metric is `nan`: nothing is below or above `nan`, and a sort leaves such items where
they were.

* `resolveRoutingDecision`: the decision;
* `balancedScore`: the score of the strategy `balanced`;
* `routing_ranks_candidates`: a decision is a ranking of the available candidates.
-/

namespace AgentRuntime.Domain

open Lib

/-! ### Strategies and metrics -/

inductive RoutingStrategy where
  | lowestLatency
  | lowestCost
  | qualityFirst
  | balanced
  deriving DecidableEq, Repr

namespace RoutingStrategy

def value : RoutingStrategy → String
  | .lowestLatency => "lowest_latency"
  | .lowestCost => "lowest_cost"
  | .qualityFirst => "quality_first"
  | .balanced => "balanced"

/-- The members in the order of their definition. -/
def all : List RoutingStrategy := [.lowestLatency, .lowestCost, .qualityFirst, .balanced]

/-- `RoutingStrategy(raw)`; `none` where it raises `ValueError`. -/
def ofValue? : Json → Option RoutingStrategy
  | .str s => all.find? fun strategy => strategy.value == s
  | _ => none

@[simp] theorem ofValue?_value (strategy : RoutingStrategy) :
    ofValue? (.str strategy.value) = some strategy := by
  cases strategy <;> decide

end RoutingStrategy

/-- What is recorded of the metrics in a decision. -/
structure MetricsSnapshot where
  provider : String
  medianLatencyMs : ℤ
  estimatedCostMicrousd : ℤ
  evaluationPassRate : PyFloat
  availabilityRate : PyFloat
  available : Bool
  deriving DecidableEq

/-- Trusted rolling metrics of a provider. -/
structure ProviderHistoricalMetrics where
  provider : String
  medianLatencyMs : ℤ
  estimatedCostMicrousd : ℤ
  evaluationPassRate : PyFloat
  availabilityRate : PyFloat
  deriving DecidableEq

def ProviderHistoricalMetrics.asSnapshot (m : ProviderHistoricalMetrics) (available : Bool) :
    MetricsSnapshot where
  provider := m.provider
  medianLatencyMs := m.medianLatencyMs
  estimatedCostMicrousd := m.estimatedCostMicrousd
  evaluationPassRate := m.evaluationPassRate
  availabilityRate :=
    if available then m.availabilityRate else .finite ⟨"0.0".toList, by decide +kernel⟩
  available := available

/-- A dictionary from provider names to metrics. -/
abbrev Catalog := List (String × ProviderHistoricalMetrics)

/-- `catalog.get(name)`. -/
def Catalog.get? (catalog : Catalog) (name : String) : Option ProviderHistoricalMetrics :=
  (catalog.find? fun entry => entry.1 == name).map Prod.snd

def catalogVersion : String := "provider-catalog.v1"

def defaultProviderCatalog : Catalog :=
  [("deterministic",
      { provider := "deterministic"
        medianLatencyMs := 5
        estimatedCostMicrousd := 0
        evaluationPassRate := .finite ⟨"0.8".toList, by decide +kernel⟩
        availabilityRate := .finite ⟨"1.0".toList, by decide +kernel⟩ }),
    ("openai",
      { provider := "openai"
        medianLatencyMs := 800
        estimatedCostMicrousd := 1500
        evaluationPassRate := .finite ⟨"0.96".toList, by decide +kernel⟩
        availabilityRate := .finite ⟨"0.995".toList, by decide +kernel⟩ })]

/-! ### Candidates -/

/-- An entry of `ranked`. -/
structure RankedCandidate where
  provider : String
  metrics : MetricsSnapshot
  score : PyFloat
  sortKey : List KeyPart

/-- An entry of `ranked_candidates`. -/
structure OrderedCandidate where
  provider : String
  score : PyFloat
  metrics : MetricsSnapshot
  deriving DecidableEq

structure RoutingDecision where
  strategy : RoutingStrategy
  metricsSource : String
  selectedProvider : String
  providerOrder : List String
  reason : String
  rankedCandidates : List OrderedCandidate
  deriving DecidableEq

def MetricsSnapshot.toJson (m : MetricsSnapshot) : Json :=
  .obj [("provider", .str m.provider), ("median_latency_ms", .int m.medianLatencyMs),
    ("estimated_cost_microusd", .int m.estimatedCostMicrousd),
    ("evaluation_pass_rate", .float m.evaluationPassRate),
    ("availability_rate", .float m.availabilityRate), ("available", .bool m.available)]

def OrderedCandidate.toJson (c : OrderedCandidate) : Json :=
  .obj [("provider", .str c.provider), ("score", .float c.score), ("metrics", c.metrics.toJson)]

def RoutingDecision.toJson (d : RoutingDecision) : Json :=
  .obj [("strategy", .str d.strategy.value), ("metrics_source", .str d.metricsSource),
    ("selected_provider", .str d.selectedProvider),
    ("provider_order", .arr (d.providerOrder.map Json.str)), ("reason", .str d.reason),
    ("ranked_candidates", .arr (d.rankedCandidates.map OrderedCandidate.toJson))]

section Router

/-- Fixed weights over normalized metrics. -/
def weightedSum (m : ProviderHistoricalMetrics) : Except PyError Float64 := do
  let cost ← divideInts m.estimatedCostMicrousd 2000
  let latency ← divideInts m.medianLatencyMs 1000
  pure ((((cost.mul (.ofRat (35 / 100))).add
    (latency.mul (.ofRat (30 / 100)))).add
    (((Float64.finite 1).sub m.evaluationPassRate.number).mul (.ofRat (25 / 100)))).add
    (((Float64.finite 1).sub m.availabilityRate.number).mul (.ofRat (10 / 100))))

variable [FloatRepr]

/-- The score of the strategy `balanced`. -/
def balancedScore (m : ProviderHistoricalMetrics) : Except PyError PyFloat :=
  (weightedSum m).bind (roundFloat 6)

variable (score : ProviderHistoricalMetrics → Except PyError PyFloat)

/-- The score of a candidate; `score` is that of the strategy `balanced`. -/
def candidateScore (strategy : RoutingStrategy) (m : ProviderHistoricalMetrics) :
    Except PyError PyFloat :=
  match strategy with
  | .lowestLatency => floatOfInt m.medianLatencyMs
  | .lowestCost => floatOfInt m.estimatedCostMicrousd
  | .qualityFirst => roundFloat 6 ((Float64.finite 1).sub m.evaluationPassRate.number)
  | .balanced => score m

/-- The sort key of a candidate. -/
def candidateKey (strategy : RoutingStrategy) (m : ProviderHistoricalMetrics) (scored : PyFloat) :
    List KeyPart :=
  match strategy with
  | .lowestLatency =>
    [.int m.medianLatencyMs, .int m.estimatedCostMicrousd,
      .float m.evaluationPassRate.number.neg, .float m.availabilityRate.number.neg,
      .str m.provider]
  | .lowestCost =>
    [.int m.estimatedCostMicrousd, .int m.medianLatencyMs,
      .float m.evaluationPassRate.number.neg, .float m.availabilityRate.number.neg,
      .str m.provider]
  | .qualityFirst =>
    [.float m.evaluationPassRate.number.neg, .float m.availabilityRate.number.neg,
      .int m.medianLatencyMs, .int m.estimatedCostMicrousd, .str m.provider]
  | .balanced => [.float scored.number, .str m.provider]

/-- `_ranked_candidate`. -/
def rankedCandidate (strategy : RoutingStrategy) (m : ProviderHistoricalMetrics)
    (available : Bool) : Except PyError RankedCandidate := do
  let scored ← candidateScore score strategy m
  pure {
    provider := m.provider
    metrics := m.asSnapshot available
    score := scored
    sortKey := candidateKey strategy m scored }

/-- `ranked.sort(key=...)`: a stable sort that asks only whether one key is below another. -/
def sortCandidates (ranked : List RankedCandidate) : List RankedCandidate :=
  ranked.insertionSort fun a b => tupleLt b.sortKey a.sortKey = false

def RankedCandidate.ordered (c : RankedCandidate) : OrderedCandidate :=
  ⟨c.provider, c.score, c.metrics⟩

/-- `_reason`. -/
def reasonText (strategy : RoutingStrategy) (selected : OrderedCandidate) (candidateCount : ℕ) :
    String :=
  let basis :=
    match strategy with
    | .lowestLatency =>
      "lowest historical median latency (" ++ toString selected.metrics.medianLatencyMs ++ " ms)"
    | .lowestCost =>
      "lowest estimated cost (" ++ toString selected.metrics.estimatedCostMicrousd
        ++ " micro-USD)"
    | .qualityFirst =>
      "highest historical evaluation pass rate ("
        ++ selected.metrics.evaluationPassRate.fixed3 ++ ")"
    | .balanced =>
      "lowest balanced cost/latency/quality/availability score (" ++ selected.score.str ++ ")"
  "Selected " ++ selected.provider ++ " using " ++ strategy.value ++ ": " ++ basis ++ " among "
    ++ toString candidateCount ++ " available candidate(s)."

/-! ### The decision -/

/-- `routing.strategy` of a request. -/
def readStrategy (routing : JsonObject) : Except PyError RoutingStrategy :=
  match RoutingStrategy.ofValue?
      (JsonObject.getD routing "strategy" (.str RoutingStrategy.balanced.value)) with
  | some strategy => .ok strategy
  | none => .error (.valueError ("routing.strategy must be one of: "
      ++ ", ".intercalate (RoutingStrategy.all.map RoutingStrategy.value)))

/-- What a request gives as candidates. -/
def requestedCandidates (requested routing : JsonObject) : Json :=
  JsonObject.getD routing "candidates"
    (JsonObject.getD requested "provider_order" (.arr [.str "deterministic"]))

/-- The candidates of a request, checked. -/
def readCandidates (candidates : Json) (catalog : Catalog) : Except PyError (List String) :=
  match stringList candidates with
  | some names =>
    if names ≠ [] ∧ ∀ name ∈ names, isBlank name = false then
      if names.Nodup then
        let unknown := names.filter fun name => (catalog.get? name).isNone
        if unknown = [] then .ok names
        else .error (.valueError ("routing.candidates contains unknown providers: "
          ++ ", ".intercalate unknown))
      else .error (.valueError "routing.candidates must not contain duplicates")
    else
      .error (.valueError "routing.candidates must be a non-empty list of provider names")
  | none => .error (.valueError "routing.candidates must be a non-empty list of provider names")

/-- Whether a provider can be used; without a list, every provider of the catalog. -/
def isAvailable (availableProviders : Option (List String)) (catalog : Catalog) (name : String) :
    Bool :=
  match availableProviders with
  | none => (catalog.get? name).isSome
  | some names => decide (name ∈ names)

/-- The decision about the ranked candidates. -/
def decisionOf (strategy : RoutingStrategy) (ranked : List RankedCandidate) :
    Except PyError RoutingDecision :=
  match (sortCandidates ranked).map RankedCandidate.ordered with
  | [] => .error (.valueError "routing.candidates has no currently available provider")
  | selected :: others => .ok {
      strategy := strategy
      metricsSource := catalogVersion
      selectedProvider := selected.provider
      providerOrder := (selected :: others).map OrderedCandidate.provider
      reason := reasonText strategy selected (selected :: others).length
      rankedCandidates := selected :: others }

/-- `catalog[name]`, ranked. -/
def rankName (strategy : RoutingStrategy) (availableProviders : Option (List String))
    (catalog : Catalog) (name : String) : Except PyError RankedCandidate :=
  match catalog.get? name with
  | some m => rankedCandidate score strategy m (isAvailable availableProviders catalog name)
  | none => .error .keyError

/-- Resolve an explainable provider ordering from trusted historical metrics. -/
def resolveRoutingDecision (requested : JsonObject) (availableProviders : Option (List String))
    (catalog : Catalog) : Except PyError RoutingDecision :=
  match JsonObject.getD requested "routing" (.obj []) with
  | .obj routing => do
      let strategy ← readStrategy routing
      let candidates ← readCandidates (requestedCandidates requested routing) catalog
      let ranked ← (candidates.filter (isAvailable availableProviders catalog)).mapM
        (rankName score strategy availableProviders catalog)
      decisionOf strategy ranked
  | _ => .error (.valueError "routing must be an object")

end Router

/-! ### What a request asks for -/

/-- A request asks for candidates under a strategy. -/
structure Asks (requested : JsonObject) (strategy : RoutingStrategy) (candidates : List String) :
    Prop where
  named : ∃ routing, JsonObject.getD requested "routing" (.obj []) = .obj routing
    ∧ RoutingStrategy.ofValue?
        (JsonObject.getD routing "strategy" (.str RoutingStrategy.balanced.value)) = some strategy
    ∧ requestedCandidates requested routing = .arr (candidates.map Json.str)

theorem stringList_strings (names : List String) :
    stringList (.arr (names.map Json.str)) = some names := by
  show (names.map Json.str).mapM _ = some names
  induction names with
  | nil => rfl
  | cons name names ih =>
    rw [List.map_cons, List.mapM_cons, ih]
    rfl

/-- Candidates a request may name. -/
structure Admissible (catalog : Catalog) (candidates : List String) : Prop where
  nonempty : candidates ≠ []
  named : ∀ name ∈ candidates, isBlank name = false
  nodup : candidates.Nodup
  known : ∀ name ∈ candidates, (catalog.get? name).isSome

theorem Admissible.perm {catalog : Catalog} {candidates candidates' : List String}
    (h : Admissible catalog candidates) (hperm : candidates'.Perm candidates) :
    Admissible catalog candidates' where
  nonempty := fun hnil => h.nonempty (by rw [hnil] at hperm; exact hperm.symm.eq_nil)
  named := fun name hname => h.named name (hperm.mem_iff.mp hname)
  nodup := hperm.nodup_iff.mpr h.nodup
  known := fun name hname => h.known name (hperm.mem_iff.mp hname)

theorem readCandidates_ok_iff {catalog : Catalog} {candidates names : List String} :
    readCandidates (.arr (candidates.map Json.str)) catalog = .ok names
      ↔ names = candidates ∧ Admissible catalog candidates := by
  unfold readCandidates
  rw [stringList_strings]
  dsimp only
  constructor
  · intro h
    split_ifs at h with hnamed hnodup hknown
    refine ⟨(Except.ok.inj h).symm, hnamed.1, hnamed.2, hnodup, fun name hname => ?_⟩
    rw [List.filter_eq_nil_iff] at hknown
    simpa [Option.isSome_iff_ne_none] using hknown name hname
  · rintro ⟨rfl, h⟩
    have hknown : (names.filter fun name => (catalog.get? name).isNone) = [] := by
      rw [List.filter_eq_nil_iff]
      intro name hname
      simpa [Option.isSome_iff_ne_none] using h.known name hname
    rw [if_pos ⟨h.nonempty, h.named⟩, if_pos h.nodup, if_pos hknown]

section Ranking

variable [FloatRepr] {score : ProviderHistoricalMetrics → Except PyError PyFloat}
  {requested : JsonObject} {strategy : RoutingStrategy} {candidates : List String}
  {availableProviders : Option (List String)} {catalog : Catalog}

theorem Asks.resolve (hasks : Asks requested strategy candidates)
    (hadmissible : Admissible catalog candidates) :
    resolveRoutingDecision score requested availableProviders catalog
      = ((candidates.filter (isAvailable availableProviders catalog)).mapM
          (rankName score strategy availableProviders catalog)).bind (decisionOf strategy) := by
  obtain ⟨routing, hrouting, hstrategy, hcandidates⟩ := hasks.named
  unfold resolveRoutingDecision
  rw [hrouting]
  dsimp only
  rw [hcandidates, readCandidates_ok_iff.mpr ⟨rfl, hadmissible⟩]
  unfold readStrategy
  rw [hstrategy]
  rfl

/-! ### Keys -/

/-- The rates of a provider are numbers or infinities. -/
structure RatesComparable (m : ProviderHistoricalMetrics) : Prop where
  passRate : m.evaluationPassRate ≠ .nan
  availability : m.availabilityRate ≠ .nan

variable (score) in
/-- Metrics by which a strategy can rank a provider. -/
def Rankable : RoutingStrategy → ProviderHistoricalMetrics → Prop
  | .lowestLatency, m => RatesComparable m ∧ (binary64 m.medianLatencyMs).isSome
  | .lowestCost, m => RatesComparable m ∧ (binary64 m.estimatedCostMicrousd).isSome
  | .qualityFirst, m => RatesComparable m
  | .balanced, m => ∃ scored, score m = .ok scored ∧ scored ≠ .nan

variable (score) in
/-- The documented order of a strategy: latency, cost, descending pass rate, or score. -/
def NotBehind : RoutingStrategy → ProviderHistoricalMetrics → ProviderHistoricalMetrics → Prop
  | .lowestLatency, m, m' => m.medianLatencyMs ≤ m'.medianLatencyMs
  | .lowestCost, m, m' => m.estimatedCostMicrousd ≤ m'.estimatedCostMicrousd
  | .qualityFirst, m, m' =>
    m'.evaluationPassRate.number.le m.evaluationPassRate.number = true
  | .balanced, m, m' => ∃ scored scored', score m = .ok scored ∧ score m' = .ok scored'
      ∧ scored.number.le scored'.number = true

theorem floatOfInt_ok {n : ℤ} (h : (binary64 n).isSome) : ∃ x, floatOfInt n = .ok x := by
  obtain ⟨r, hr⟩ := Option.isSome_iff_exists.mp h
  unfold floatOfInt
  rw [hr]
  exact ⟨_, rfl⟩

theorem qualityScore_ok (x : PyFloat) :
    ∃ scored, roundFloat 6 ((Float64.finite 1).sub x.number) = .ok scored := by
  cases hx : x.number with
  | finite q => exact roundFloat_ofRat 6 (1 + -q)
  | _ => exact ⟨_, rfl⟩

variable {m : ProviderHistoricalMetrics}

theorem Rankable.score_ok (h : Rankable score strategy m) :
    ∃ scored, candidateScore score strategy m = .ok scored := by
  cases strategy with
  | lowestLatency => exact floatOfInt_ok h.2
  | lowestCost => exact floatOfInt_ok h.2
  | qualityFirst => exact qualityScore_ok _
  | balanced =>
    obtain ⟨scored, hscored, -⟩ := h
    exact ⟨scored, hscored⟩

omit [FloatRepr] in
theorem RatesComparable.parts (h : RatesComparable m) :
    (KeyPart.float m.evaluationPassRate.number.neg).Comparable
      ∧ (KeyPart.float m.availabilityRate.number.neg).Comparable :=
  ⟨Float64.neg_ne_nan (PyFloat.number_ne_nan h.passRate),
    Float64.neg_ne_nan (PyFloat.number_ne_nan h.availability)⟩

theorem Rankable.comparable {scored : PyFloat} (h : Rankable score strategy m)
    (hscored : candidateScore score strategy m = .ok scored) :
    ∀ part ∈ candidateKey strategy m scored, part.Comparable := by
  have hint (n : ℤ) : (KeyPart.int n).Comparable := trivial
  have hstr (s : String) : (KeyPart.str s).Comparable := trivial
  cases strategy with
  | lowestLatency => simp [candidateKey, hint, hstr, h.1.parts]
  | lowestCost => simp [candidateKey, hint, hstr, h.1.parts]
  | qualityFirst => simp [candidateKey, hint, hstr, RatesComparable.parts h]
  | balanced =>
    obtain ⟨scored', hscored', hnan⟩ := h
    obtain rfl : scored' = scored := Except.ok.inj (hscored'.symm.trans hscored)
    have hpart : (KeyPart.float scored'.number).Comparable := PyFloat.number_ne_nan hnan
    simp [candidateKey, hstr, hpart]

/-- The key of a candidate in a linear order. -/
def RankedCandidate.level (c : RankedCandidate) : List (ℤ ⊕ₗ (WithBot (WithTop ℚ) ⊕ₗ String)) :=
  c.sortKey.map KeyPart.level

omit [FloatRepr] in
/-- A key ends with the name. -/
theorem candidateKey_last (strategy : RoutingStrategy) (m : ProviderHistoricalMetrics)
    (scored : PyFloat) :
    (candidateKey strategy m scored).getLast? = some (.str m.provider) := by
  cases strategy <;> rfl

/-- The first parts of keys in order are in the documented order. -/
theorem notBehind_of_level_le {m m' : ProviderHistoricalMetrics} {scored scored' : PyFloat}
    (h : Rankable score strategy m) (h' : Rankable score strategy m')
    (hscored : candidateScore score strategy m = .ok scored)
    (hscored' : candidateScore score strategy m' = .ok scored')
    (hle : (candidateKey strategy m scored).map KeyPart.level
      ≤ (candidateKey strategy m' scored').map KeyPart.level) :
    NotBehind score strategy m m' := by
  have hfirst {a b : ℤ ⊕ₗ (WithBot (WithTop ℚ) ⊕ₗ String)} {as bs : List _}
      (hcons : a :: as ≤ b :: bs) : a ≤ b := by
    by_contra hlt
    exact absurd (List.cons_lt_cons_iff.mpr (.inl (not_le.mp hlt))) (not_lt.mpr hcons)
  cases strategy with
  | lowestLatency => exact Sum.Lex.inl_le_inl_iff.mp (hfirst hle)
  | lowestCost => exact Sum.Lex.inl_le_inl_iff.mp (hfirst hle)
  | qualityFirst =>
    have hlevel := Sum.Lex.inl_le_inl_iff.mp (Sum.Lex.inr_le_inr_iff.mp (hfirst hle))
    have hrate := PyFloat.number_ne_nan h.passRate
    have hrate' := PyFloat.number_ne_nan h'.passRate
    exact (Float64.le_iff_level hrate' hrate).mpr ((Float64.neg_level_le_iff hrate hrate').mp hlevel)
  | balanced =>
    have hlevel := Sum.Lex.inl_le_inl_iff.mp (Sum.Lex.inr_le_inr_iff.mp (hfirst hle))
    obtain ⟨x, hx, hnan⟩ := h
    obtain ⟨x', hx', hnan'⟩ := h'
    obtain rfl : x = scored := Except.ok.inj (hx.symm.trans hscored)
    obtain rfl : x' = scored' := Except.ok.inj (hx'.symm.trans hscored')
    exact ⟨x, x', hx, hx', (Float64.le_iff_level (PyFloat.number_ne_nan hnan)
      (PyFloat.number_ne_nan hnan')).mpr hlevel⟩

/-! ### Ranked candidates -/

variable (score strategy catalog) in
/-- A candidate made from the metrics of an available name. -/
structure RankedAs (name : String) (c : RankedCandidate) : Prop where
  made : ∃ m scored, catalog.get? name = some m ∧ m.provider = name ∧ Rankable score strategy m
    ∧ candidateScore score strategy m = .ok scored
    ∧ c = ⟨m.provider, m.asSnapshot true, scored, candidateKey strategy m scored⟩

variable (catalog) in
/-- Each entry's provider is its key. -/
def Keyed : Prop := ∀ entry ∈ catalog, entry.2.provider = entry.1

variable {name : String}

omit [FloatRepr] in
theorem Keyed.provider_eq (h : Keyed catalog) (hm : catalog.get? name = some m) :
    m.provider = name := by
  obtain ⟨entry, hentry, rfl⟩ := Option.map_eq_some_iff.mp hm
  rw [h entry (List.mem_of_find?_eq_some hentry)]
  simpa using List.find?_some hentry

variable (score strategy availableProviders catalog candidates) in
/-- The available candidates can be ranked. -/
def AllRankable : Prop :=
  ∀ name ∈ candidates, isAvailable availableProviders catalog name = true →
    ∀ m, catalog.get? name = some m → Rankable score strategy m

theorem rankName_of_available (hkeyed : Keyed catalog)
    (havailable : isAvailable availableProviders catalog name = true)
    (hm : catalog.get? name = some m) (hrankable : Rankable score strategy m) :
    ∃ c, rankName score strategy availableProviders catalog name = .ok c
      ∧ RankedAs score strategy catalog name c := by
  obtain ⟨scored, hscored⟩ := hrankable.score_ok
  refine ⟨_, ?_, m, scored, hm, hkeyed.provider_eq hm, hrankable, hscored, rfl⟩
  simp only [rankName, hm, havailable, rankedCandidate, hscored]
  rfl

/-- Every available candidate is ranked. -/
theorem exists_ranked (hkeyed : Keyed catalog) (hadmissible : Admissible catalog candidates)
    (hrankable : AllRankable score strategy candidates availableProviders catalog) :
    ∃ ranked, (candidates.filter (isAvailable availableProviders catalog)).mapM
        (rankName score strategy availableProviders catalog) = .ok ranked
      ∧ List.Forall₂ (RankedAs score strategy catalog)
          (candidates.filter (isAvailable availableProviders catalog)) ranked := by
  have heach : ∀ name ∈ candidates.filter (isAvailable availableProviders catalog),
      ∃ c, rankName score strategy availableProviders catalog name = .ok c
        ∧ RankedAs score strategy catalog name c := by
    intro name hname
    obtain ⟨hmem, havailable⟩ := List.mem_filter.mp hname
    obtain ⟨m, hm⟩ := Option.isSome_iff_exists.mp (hadmissible.known name hmem)
    exact rankName_of_available hkeyed havailable hm (hrankable name hmem havailable m hm)
  obtain ⟨ranked, hranked⟩ := exists_forall₂_iff.mpr heach
  exact ⟨ranked, mapM_eq_ok_iff_forall₂.mpr (hranked.imp fun _ _ h => h.1),
    hranked.imp fun _ _ h => h.2⟩

theorem RankedAs.provider_eq {c : RankedCandidate} (h : RankedAs score strategy catalog name c) :
    c.provider = name := by
  obtain ⟨m, scored, -, hname, -, -, rfl⟩ := h.made
  exact hname

theorem RankedAs.comparable {c : RankedCandidate} (h : RankedAs score strategy catalog name c) :
    ∀ part ∈ c.sortKey, part.Comparable := by
  obtain ⟨m, scored, -, -, hrankable, hscored, rfl⟩ := h.made
  exact hrankable.comparable hscored

variable {c c' : RankedCandidate}

theorem RankedAs.unique (h : RankedAs score strategy catalog name c)
    (h' : RankedAs score strategy catalog name c') : c = c' := by
  obtain ⟨m, scored, hm, -, -, hscored, rfl⟩ := h.made
  obtain ⟨m', scored', hm', -, -, hscored', rfl⟩ := h'.made
  obtain rfl : m = m' := Option.some.inj (hm.symm.trans hm')
  obtain rfl : scored = scored' := Except.ok.inj (hscored.symm.trans hscored')
  rfl

/-- Equal keys have equal names at their ends. -/
theorem RankedAs.provider_eq_of_level {name name' : String}
    (h : RankedAs score strategy catalog name c) (h' : RankedAs score strategy catalog name' c')
    (hlevel : c.level = c'.level) : name = name' := by
  obtain ⟨m, scored, -, hname, -, -, rfl⟩ := h.made
  obtain ⟨m', scored', -, hname', -, -, rfl⟩ := h'.made
  have hlast := congrArg List.getLast? hlevel
  simp only [RankedCandidate.level, List.getLast?_map, candidateKey_last, Option.map_some,
    KeyPart.level] at hlast
  rw [← hname, ← hname']
  exact Sum.inr_injective (Sum.inr_injective (Option.some.inj hlast))

theorem RankedAs.notBehind {name name' : String} (h : RankedAs score strategy catalog name c)
    (h' : RankedAs score strategy catalog name' c') (hle : c.level ≤ c'.level)
    {m m' : ProviderHistoricalMetrics} (hm : catalog.get? name = some m)
    (hm' : catalog.get? name' = some m') : NotBehind score strategy m m' := by
  obtain ⟨n, scored, hn, -, hrankable, hscored, rfl⟩ := h.made
  obtain ⟨n', scored', hn', -, hrankable', hscored', rfl⟩ := h'.made
  obtain rfl : n = m := Option.some.inj (hn.symm.trans hm)
  obtain rfl : n' = m' := Option.some.inj (hn'.symm.trans hm')
  exact notBehind_of_level_le hrankable hrankable' hscored hscored' hle

section Sorted

variable {names : List String} {ranked : List RankedCandidate}

/-- The sort ranks by the level of the keys. -/
theorem sortCandidates_eq (h : List.Forall₂ (RankedAs score strategy catalog) names ranked) :
    sortCandidates ranked = ranking RankedCandidate.level ranked := by
  refine insertionSort_eq_ranking fun a ha b hb => ?_
  obtain ⟨_, -, hrankedA⟩ := exists_item_of_mem h ha
  obtain ⟨_, -, hrankedB⟩ := exists_item_of_mem h hb
  rw [← not_lt, RankedCandidate.level, RankedCandidate.level,
    ← tupleLt_iff_level hrankedB.comparable hrankedA.comparable, Bool.not_eq_true]

theorem ranked_providers (h : List.Forall₂ (RankedAs score strategy catalog) names ranked) :
    ranked.map RankedCandidate.provider = names := by
  induction h with
  | nil => rfl
  | cons hhead _ ih => rw [List.map_cons, hhead.provider_eq, ih]

variable {ranked' : List RankedCandidate}

theorem ranked_perm {names' : List String} (hperm : names'.Perm names)
    (h' : List.Forall₂ (RankedAs score strategy catalog) names' ranked')
    (h : List.Forall₂ (RankedAs score strategy catalog) names ranked) : ranked'.Perm ranked := by
  obtain ⟨ranked'', heach, hranked⟩ := List.perm_comp_forall₂ hperm h
  have hunique : Relator.RightUnique (RankedAs score strategy catalog) :=
    fun _ _ _ hc hc' => hc.unique hc'
  rw [List.right_unique_forall₂' hunique h' heach]
  exact hranked

/-- The order in which the candidates come does not matter. -/
theorem sortCandidates_perm {names' : List String}
    (h : List.Forall₂ (RankedAs score strategy catalog) names ranked)
    (h' : List.Forall₂ (RankedAs score strategy catalog) names' ranked')
    (hperm : ranked'.Perm ranked) : sortCandidates ranked' = sortCandidates ranked := by
  rw [sortCandidates_eq h, sortCandidates_eq h']
  refine ranking_congr_perm hperm fun a ha b hb hlevel => ?_
  obtain ⟨name, -, hrankedA⟩ := exists_item_of_mem h' ha
  obtain ⟨name', -, hrankedB⟩ := exists_item_of_mem h' hb
  obtain rfl := hrankedA.provider_eq_of_level hrankedB hlevel
  exact hrankedA.unique hrankedB

end Sorted

omit [FloatRepr] in
variable (strategy) in
theorem decisionOf_ok {ranked : List RankedCandidate} (h : ranked ≠ []) :
    ∃ decision, decisionOf strategy ranked = .ok decision
      ∧ decision.strategy = strategy
      ∧ decision.rankedCandidates = (sortCandidates ranked).map RankedCandidate.ordered
      ∧ decision.providerOrder = decision.rankedCandidates.map OrderedCandidate.provider
      ∧ decision.providerOrder.head? = some decision.selectedProvider := by
  have hperm : (sortCandidates ranked).Perm ranked := List.perm_insertionSort _ ranked
  unfold decisionOf
  cases hsorted : sortCandidates ranked with
  | nil =>
    rw [hsorted] at hperm
    exact absurd hperm.symm.eq_nil h
  | cons first rest => exact ⟨_, rfl, rfl, rfl, rfl, rfl⟩

/-- The decision about the ranked candidates of a request. -/
theorem Asks.resolve_ok (hkeyed : Keyed catalog) (hasks : Asks requested strategy candidates)
    (hadmissible : Admissible catalog candidates)
    (hmeets : ∃ name ∈ candidates, isAvailable availableProviders catalog name = true)
    (hrankable : AllRankable score strategy candidates availableProviders catalog) :
    ∃ ranked decision, List.Forall₂ (RankedAs score strategy catalog)
        (candidates.filter (isAvailable availableProviders catalog)) ranked
      ∧ decisionOf strategy ranked = .ok decision
      ∧ resolveRoutingDecision score requested availableProviders catalog = .ok decision
      ∧ decision.strategy = strategy
      ∧ decision.providerOrder = (sortCandidates ranked).map RankedCandidate.provider
      ∧ decision.providerOrder.Perm (candidates.filter (isAvailable availableProviders catalog))
      ∧ decision.providerOrder.head? = some decision.selectedProvider
      ∧ decision.rankedCandidates.map OrderedCandidate.provider = decision.providerOrder := by
  obtain ⟨ranked, hranked, heach⟩ := exists_ranked hkeyed hadmissible hrankable
  have hproviders := ranked_providers heach
  have hne : ranked ≠ [] := by
    rintro rfl
    obtain ⟨name, hname, havailable⟩ := hmeets
    have hmem := List.mem_filter.mpr ⟨hname, havailable⟩
    rw [← hproviders] at hmem
    cases hmem
  obtain ⟨decision, hdecision, hstrategy, hentries, horder, hselected⟩ :=
    decisionOf_ok strategy hne
  have hsorted : decision.providerOrder = (sortCandidates ranked).map RankedCandidate.provider := by
    rw [horder, hentries, List.map_map]
    rfl
  refine ⟨ranked, decision, heach, hdecision, ?_, hstrategy, hsorted, ?_, hselected, horder.symm⟩
  · rw [hasks.resolve hadmissible, hranked]
    exact hdecision
  · rw [hsorted, ← hproviders]
    exact (List.perm_insertionSort _ ranked).map _

/-- Without a decision for unusable candidates, a decision means that they were usable. -/
theorem Asks.usable_of_ok (hasks : Asks requested strategy candidates)
    {decision : RoutingDecision}
    (h : resolveRoutingDecision score requested availableProviders catalog = .ok decision) :
    Admissible catalog candidates
      ∧ ∃ name ∈ candidates, isAvailable availableProviders catalog name = true := by
  have hadmissible : Admissible catalog candidates := by
    obtain ⟨routing, hrouting, hstrategy, hcandidates⟩ := hasks.named
    unfold resolveRoutingDecision at h
    rw [hrouting] at h
    dsimp only at h
    rw [hcandidates] at h
    unfold readStrategy at h
    rw [hstrategy] at h
    cases hread : readCandidates (.arr (candidates.map Json.str)) catalog with
    | error e =>
      rw [hread] at h
      cases h
    | ok names => exact (readCandidates_ok_iff.mp hread).2
  refine ⟨hadmissible, ?_⟩
  by_contra hnone
  have hempty : candidates.filter (isAvailable availableProviders catalog) = [] := by
    rw [List.filter_eq_nil_iff]
    intro name hname havailable
    exact hnone ⟨name, hname, havailable⟩
  rw [hasks.resolve hadmissible, hempty] at h
  cases h

/-- **A decision ranks the available candidates.** For a catalog whose entries are under their own
names, candidates that are distinct, known and not blank, at least one of them available, and
metrics by which the strategy can rank the available ones, there is a decision: its order has
exactly the available candidates, by the documented metric, and it selects the first. The order in
which the candidates come, and what is available beside them, make no difference. -/
theorem routing_ranks_candidates (hkeyed : Keyed catalog)
    (hasks : Asks requested strategy candidates) (hadmissible : Admissible catalog candidates)
    (hmeets : ∃ name ∈ candidates, isAvailable availableProviders catalog name = true)
    (hrankable : AllRankable score strategy candidates availableProviders catalog) :
    ∃ decision, resolveRoutingDecision score requested availableProviders catalog = .ok decision
      ∧ decision.strategy = strategy
      ∧ decision.providerOrder.Perm (candidates.filter (isAvailable availableProviders catalog))
      ∧ decision.providerOrder.Pairwise (fun name name' =>
          ∀ m m', catalog.get? name = some m → catalog.get? name' = some m' →
            NotBehind score strategy m m')
      ∧ decision.providerOrder.head? = some decision.selectedProvider
      ∧ decision.rankedCandidates.map OrderedCandidate.provider = decision.providerOrder
      ∧ ∀ requested' candidates' availableProviders', Asks requested' strategy candidates' →
          candidates'.Perm candidates →
          (∀ name ∈ candidates, isAvailable availableProviders' catalog name
            = isAvailable availableProviders catalog name) →
          resolveRoutingDecision score requested' availableProviders' catalog = .ok decision := by
  obtain ⟨ranked, decision, heach, hdecision, hresolve, hstrategy, hsorted, hnamesPerm, hselected,
    horder⟩ := hasks.resolve_ok hkeyed hadmissible hmeets hrankable
  refine ⟨decision, hresolve, hstrategy, hnamesPerm, ?_, hselected, horder, ?_⟩
  · rw [hsorted, sortCandidates_eq heach, List.pairwise_map]
    refine (ranking_sorted RankedCandidate.level ranked).imp_of_mem ?_
    intro a b ha hb hle m m' hm hm'
    obtain ⟨name, -, hrankedA⟩ := exists_item_of_mem heach ((ranking_perm _ ranked).mem_iff.mp ha)
    obtain ⟨name', -, hrankedB⟩ := exists_item_of_mem heach ((ranking_perm _ ranked).mem_iff.mp hb)
    rw [hrankedA.provider_eq] at hm
    rw [hrankedB.provider_eq] at hm'
    exact hrankedA.notBehind hrankedB hle hm hm'
  · intro requested' candidates' availableProviders' hasks' hperm hsame
    have hfilter : candidates'.filter (isAvailable availableProviders' catalog)
        = candidates'.filter (isAvailable availableProviders catalog) :=
      List.filter_congr fun name hname => hsame name (hperm.mem_iff.mp hname)
    have hnames : (candidates'.filter (isAvailable availableProviders' catalog)).Perm
        (candidates.filter (isAvailable availableProviders catalog)) := by
      rw [hfilter]
      exact hperm.filter _
    have hrankable' : AllRankable score strategy candidates' availableProviders' catalog := by
      intro name hname havailable
      have hmem := hperm.mem_iff.mp hname
      exact hrankable name hmem ((hsame name hmem).symm.trans havailable)
    obtain ⟨ranked', hranked', heach'⟩ := exists_ranked hkeyed (hadmissible.perm hperm) hrankable'
    have hsort := sortCandidates_perm heach heach' (ranked_perm hnames heach' heach)
    rw [hasks'.resolve (hadmissible.perm hperm), hranked', ← hdecision]
    show decisionOf strategy ranked' = decisionOf strategy ranked
    unfold decisionOf
    rw [hsort]

end Ranking

/-- A request for candidates under a strategy. -/
def askFor (strategy : RoutingStrategy) (candidates : List String) : JsonObject :=
  [("routing", .obj [("strategy", .str strategy.value),
    ("candidates", .arr (candidates.map Json.str))])]

theorem asks_askFor (strategy : RoutingStrategy) (candidates : List String) :
    Asks (askFor strategy candidates) strategy candidates :=
  ⟨_, rfl, strategy.ofValue?_value, rfl⟩

theorem keyed_default : Keyed defaultProviderCatalog := by
  show ∀ entry ∈ defaultProviderCatalog, entry.2.provider = entry.1
  decide

theorem routing_ranks_candidates_default :
    let _ : FloatRepr := exactRepr
    ∃ decision, resolveRoutingDecision balancedScore
        (askFor .qualityFirst ["deterministic", "openai"]) none defaultProviderCatalog
          = .ok decision
      ∧ decision.providerOrder.Perm ["deterministic", "openai"]
      ∧ resolveRoutingDecision balancedScore (askFor .qualityFirst ["openai", "deterministic"])
          (some ["openai", "local", "deterministic"]) defaultProviderCatalog = .ok decision := by
  intro _
  have hrankable : AllRankable balancedScore .qualityFirst ["deterministic", "openai"] none
      defaultProviderCatalog := by
    intro name hname _ m hm
    rcases List.mem_cons.mp hname with rfl | hname
    · obtain rfl := Option.some.inj hm
      exact ⟨by decide, by decide⟩
    · obtain rfl := List.mem_singleton.mp hname
      obtain rfl := Option.some.inj hm
      exact ⟨by decide, by decide⟩
  obtain ⟨decision, hdecision, -, hperm, -, -, -, hsame⟩ :=
    routing_ranks_candidates keyed_default (asks_askFor .qualityFirst ["deterministic", "openai"])
      ⟨by decide, by decide, by decide, by decide⟩ (by decide) hrankable
  exact ⟨decision, hdecision, hperm, hsame _ _ _ (asks_askFor _ _) (by decide) (by decide)⟩

example : let _ : FloatRepr := exactRepr
    (resolveRoutingDecision balancedScore (askFor .lowestLatency ["openai", "deterministic"]) none
        defaultProviderCatalog).toOption.map RoutingDecision.reason
      = some ("Selected deterministic using lowest_latency: lowest historical median latency "
        ++ "(5 ms) among 2 available candidate(s).") := by
  decide +kernel

/-- Metrics with a pass rate. -/
def metricsWith (provider : String) (passRate : PyFloat) : ProviderHistoricalMetrics where
  provider := provider
  medianLatencyMs := 5
  estimatedCostMicrousd := 0
  evaluationPassRate := passRate
  availabilityRate := .finite ⟨"1.0".toList, by decide +kernel⟩

/-- A blank name is refused although the catalog has it, a pass rate that is `nan` leaves the
candidates in the order of the request, and a latency or a cost beyond the float range raises. -/
theorem unrankable_candidates :
    let _ : FloatRepr := exactRepr
    let half : PyFloat := .finite ⟨"0.5".toList, by decide +kernel⟩
    let blank : Catalog := [(" ", metricsWith " " half)]
    let unrated : Catalog := [("a", metricsWith "a" .nan), ("b", metricsWith "b" half)]
    resolveRoutingDecision balancedScore (askFor .qualityFirst [" "]) none blank
      = .error (.valueError "routing.candidates must be a non-empty list of provider names")
    ∧ (resolveRoutingDecision balancedScore (askFor .qualityFirst ["a", "b"]) none
        unrated).toOption.map RoutingDecision.providerOrder = some ["a", "b"]
    ∧ (resolveRoutingDecision balancedScore (askFor .qualityFirst ["b", "a"]) none
        unrated).toOption.map RoutingDecision.providerOrder = some ["b", "a"]
    ∧ (resolveRoutingDecision balancedScore (askFor .lowestLatency ["a"]) none
        [("a", { metricsWith "a" half with medianLatencyMs := 10 ^ 400 })]).map
          RoutingDecision.reason = .error (.overflowError "int too large to convert to float")
    ∧ (resolveRoutingDecision balancedScore (askFor .lowestCost ["a"]) none
        [("a", { metricsWith "a" half with estimatedCostMicrousd := 10 ^ 400 })]).map
          RoutingDecision.reason = .error (.overflowError "int too large to convert to float") := by
  intro _ half blank unrated
  exact ⟨rfl, by decide +kernel, by decide +kernel, by decide +kernel, by decide +kernel⟩

end AgentRuntime.Domain
