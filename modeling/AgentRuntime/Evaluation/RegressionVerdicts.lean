import AgentRuntime.Evaluation.Regression
import Mathlib.Algebra.Order.Ring.WithTop

/-!
# Verdicts of the regression gates

Every gate compares an allowed value with a change that has been rounded on the way: pass rates to
millionths, average latencies to thousandths, points and percentages to thousandths. Over exact
rationals the last rounding moves the gate: a change trips it from the middle of the gate's
thousandth on, and not from the gate itself.

* `rateMillionths`, `latencyThousandths`: what a summary keeps of the counts and totals;
* `rise`: the change of a total in thousandths of a percent, infinite from zero to something;
* `Past`, `Misjudged`: the changes that trip a gate, and those that it judges wrongly;
* `metric_verdict`, `quality_verdict`: what the gates compare;
* `regression_verdicts_exact_iff`: when the verdicts are those of the exact changes.
-/

namespace AgentRuntime.Evaluation

open Lib Domain

/-! ### Totals -/

/-- How many cases passed. -/
def passedCount (cases : List CaseResult) : ℕ := (cases.filter CaseResult.passed).length

def totalLatency (cases : List CaseResult) : ℤ := (cases.map CaseResult.latencyMs).sum

def totalCost (cases : List CaseResult) : ℤ := (cases.map CaseResult.estimatedCostMicrousd).sum

/-- The pass rate in millionths, to the nearest one. -/
def rateMillionths (cases : List CaseResult) : ℤ :=
  nearest (1000000 * passedCount cases) cases.length

/-- The average latency in thousandths of a millisecond, to the nearest one. -/
def latencyThousandths (cases : List CaseResult) : ℤ :=
  nearest (1000 * totalLatency cases) cases.length

/-- The change of a total in thousandths of a percent. -/
def rise (baseline candidate : ℤ) : WithTop ℚ :=
  if baseline = 0 then (if candidate = 0 then 0 else ⊤)
  else (100000 * (candidate - baseline) / baseline : ℚ)

/-- The candidate exceeds the baseline by more than `p` percent; anything exceeds zero. -/
def ExceedsBy (p baseline candidate : ℚ) : Prop :=
  if baseline = 0 then 0 < candidate else baseline + baseline * p / 100 < candidate

theorem exceedsBy_iff {p : ℚ} {baseline candidate : ℤ} (hb : 0 ≤ baseline) (hc : 0 ≤ candidate)
    (hp : 0 ≤ p) : ExceedsBy p baseline candidate ↔ (1000 * p : ℚ) < rise baseline candidate := by
  unfold ExceedsBy rise
  simp only [Int.cast_eq_zero]
  by_cases hzero : baseline = 0
  · rw [if_pos hzero, if_pos hzero]
    by_cases hsame : candidate = 0
    · rw [if_pos hsame, hsame]
      refine iff_of_false (by simp) (not_lt.mpr ?_)
      exact_mod_cast mul_nonneg (by norm_num) hp
    · rw [if_neg hsame]
      exact iff_of_true (by exact_mod_cast lt_of_le_of_ne hc (Ne.symm hsame)) (WithTop.coe_lt_top _)
  · have hpos : (0 : ℚ) < baseline := by exact_mod_cast lt_of_le_of_ne hb (Ne.symm hzero)
    rw [if_neg hzero, if_neg hzero, WithTop.coe_lt_coe, lt_div_iff₀ hpos]
    constructor <;> intro h <;> linarith

/-! ### Gates -/

/-- The middle of the unit a gate lies in. -/
def middle (gate : ℚ) : ℚ := ⌊gate⌋ + 1 / 2

/-- The changes that are rounded past a gate. -/
def Past (gate : ℚ) (change : WithTop ℚ) : Prop :=
  middle gate < change ∨ change = middle gate ∧ Odd ⌊gate⌋

/-- A gate judges a change wrongly, where its verdict rests on the change `seen`: the change is above
the gate and the one seen is rounded down to it, or the change is not and the one seen is rounded
past it. -/
def Misjudged (gate : ℚ) (change seen : WithTop ℚ) : Prop :=
  (gate < change ∧ (seen < middle gate ∨ seen = middle gate ∧ Even ⌊gate⌋))
    ∨ (change ≤ gate ∧ (middle gate < seen ∨ seen = middle gate ∧ Odd ⌊gate⌋))

theorem past_coe {gate change : ℚ} : Past gate change ↔ gate < roundHalfEven change := by
  rw [← Int.floor_lt, lt_roundHalfEven_iff]
  unfold Past middle
  norm_cast

theorem past_top (gate : ℚ) : Past gate ⊤ := .inl (WithTop.coe_lt_top _)

theorem past_iff_misjudged {gate : ℚ} {change seen : WithTop ℚ} :
    (Past gate seen ↔ gate < change) ↔ ¬ Misjudged gate change seen := by
  have hnot : ¬ Past gate seen ↔ seen < middle gate ∨ seen = middle gate ∧ Even ⌊gate⌋ := by
    rw [Past, not_above_iff, Int.not_odd_iff_even]
  unfold Misjudged
  rw [← hnot, ← not_lt]
  change _ ↔ ¬ (_ ∨ _ ∧ Past gate seen)
  by_cases hpast : Past gate seen
  · simp [hpast]
  · simp [hpast]

/-! ### What the gates compare -/

theorem trueDivide_exact {a b : ℤ} (hb : b ≠ 0) : Arithmetic.exact.trueDivide a b = .ok (a / b) := by
  simp [Arithmetic.trueDivide, Arithmetic.exact, hb]

variable {cases : List CaseResult}

/-- Rounding the quotient of a count to some digits. -/
theorem roundTo_div (digits : ℕ) (a : ℤ) {n : ℕ} (hn : 0 < n) :
    roundTo digits (a / n) = nearest (10 ^ digits * a) n / 10 ^ digits := by
  rw [roundTo, ← roundHalfEven_div _ hn]
  push_cast
  rw [mul_comm, mul_div_assoc]

theorem summarize_exact (hne : cases ≠ []) :
    summarize .exact cases = .ok {
      passedCases := passedCount cases
      failedCases := cases.length - passedCount cases
      passRate := rateMillionths cases / 1000000
      averageLatencyMs := latencyThousandths cases / 1000
      estimatedCostMicrousd := totalCost cases } := by
  have hpos : 0 < cases.length := List.length_pos_iff.mpr hne
  have hlength : (cases.length : ℤ) ≠ 0 := by omega
  simp only [summarize, trueDivide_exact hlength]
  have hrate := roundTo_div 6 (passedCount cases) hpos
  have hlatency := roundTo_div 3 (totalLatency cases) hpos
  norm_num at hrate hlatency
  simp only [rateMillionths, latencyThousandths, ← hrate, ← hlatency]
  rfl

theorem relativeChange_exact {baseline candidate : Metric} (hb : baseline.value ≠ 0) :
    Arithmetic.exact.relativeChange baseline candidate
      = .ok ((candidate.value - baseline.value) / baseline.value) := by
  cases baseline with
  | float q => rfl
  | int b =>
    cases candidate with
    | float q => rfl
    | int c =>
      have hb' : b ≠ 0 := by simpa [Metric.value] using hb
      rw [Arithmetic.relativeChange, trueDivide_exact hb']
      simp [Metric.value]

theorem lt_roundTo_iff {digits : ℕ} {g q : ℚ} :
    g < roundTo digits q ↔ Past (10 ^ digits * g) ((q * 10 ^ digits : ℚ) : WithTop ℚ) := by
  rw [past_coe, roundTo, lt_div_iff₀ (by positivity), mul_comm]

/-- **A metric gate** trips if the change of its metric, counted in any unit, is past it; one that is
not set lets everything pass. -/
theorem metric_verdict {baseline candidate : Metric} {b c : ℤ} {unit : ℚ} (hunit : 0 < unit)
    (hb : baseline.value = b / unit) (hc : candidate.value = c / unit) (hnonneg : 0 ≤ c)
    (allowed : Option ℚ) :
    ∃ compared, metricComparison .exact baseline candidate allowed = .ok compared
      ∧ (allowed = none → compared.regressed = false)
      ∧ ∀ p, allowed = some p → (compared.regressed = true ↔ Past (1000 * p) (rise b c)) := by
  have hbzero : baseline.value = 0 ↔ b = 0 := by simp [hb, hunit.ne']
  have hczero : candidate.value = 0 ↔ c = 0 := by simp [hc, hunit.ne']
  unfold metricComparison percentDelta rise
  by_cases hzero : b = 0
  · simp only [if_pos (hbzero.mpr hzero), if_pos hzero, hczero]
    by_cases hsame : c = 0
    · simp only [if_pos hsame]
      refine ⟨_, rfl, fun hnone => by rw [hnone]; rfl, fun p hp => ?_⟩
      rw [← WithTop.coe_zero, past_coe]
      simp only [hp, exceeds, decide_eq_true_eq, roundHalfEven_zero, Int.cast_zero]
      constructor <;> intro h <;> linarith
    · simp only [if_neg hsame]
      refine ⟨_, rfl, fun hnone => by rw [hnone]; rfl, fun p hp => ?_⟩
      have hpos : (0 : ℚ) < c := by exact_mod_cast lt_of_le_of_ne hnonneg (Ne.symm hsame)
      simp only [hp, exceeds, decide_eq_true_eq, hbzero.mpr hzero, hc]
      exact iff_of_true (div_pos hpos hunit) (past_top _)
  · have hb' : (b : ℚ) ≠ 0 := by exact_mod_cast hzero
    have hchange : (c / unit - b / unit) / (b / unit) * 100 * 10 ^ 3 = 100000 * (c - b) / (b : ℚ) := by
      field_simp
      ring
    simp only [if_neg (mt hbzero.mp hzero), if_neg hzero, relativeChange_exact (mt hbzero.mp hzero)]
    refine ⟨_, rfl, fun hnone => by rw [hnone]; rfl, fun p hp => ?_⟩
    simp only [hp, exceeds, decide_eq_true_eq]
    rw [gt_iff_lt, lt_roundTo_iff, hb, hc, hchange]
    norm_num

/-- **The quality gate** trips if the loss of the rounded pass rates is past it. -/
theorem quality_verdict {b c : ℤ} {points : ℚ} :
    roundTo 3 (((c : ℚ) / 1000000 - b / 1000000) * 100) < -points
      ↔ Past (1000 * points) (((b - c) / 10 : ℚ) : WithTop ℚ) := by
  have hscale : ((c : ℚ) / 1000000 - b / 1000000) * 100 * 10 ^ 3 = -((b - c) / 10) := by ring
  have hpoints : -points * 10 ^ 3 = -(1000 * points) := by ring
  have hodd : Odd (-⌊1000 * points⌋) ↔ Odd ⌊1000 * points⌋ := odd_neg
  rw [roundTo, div_lt_iff₀ (by positivity), hscale, hpoints, lt_neg, ← Int.cast_neg,
    ← Int.floor_lt, lt_neg, roundHalfEven_lt_iff, hodd]
  unfold Past middle
  norm_cast
  push_cast
  constructor
  · rintro (h | ⟨h, hk⟩)
    · exact .inl (by linarith)
    · exact .inr ⟨by linarith, hk⟩
  · rintro (h | ⟨h, hk⟩)
    · exact .inl (by linarith)
    · exact .inr ⟨by linarith, hk⟩

/-! ### Zero tolerance -/

/-- A gate of nothing trips from half a unit on. -/
theorem past_zero_coe {change : ℚ} : Past (1000 * 0) change ↔ 1 / 2 < change := by
  rw [mul_zero]
  unfold Past middle
  norm_cast
  simp

/-- A rise of the cost is seen if it is more than one part in 200000. -/
theorem past_zero_rise_iff {baseline candidate : ℤ} (hb : 0 ≤ baseline) (hc : 0 ≤ candidate) :
    Past (1000 * 0) (rise baseline candidate) ↔ baseline < 200000 * (candidate - baseline) := by
  unfold rise
  rcases hb.eq_or_lt with rfl | hb
  · rcases hc.eq_or_lt with rfl | hc
    · rw [if_pos rfl, if_pos rfl, ← WithTop.coe_zero, past_zero_coe]
      norm_num
    · rw [if_pos rfl, if_neg hc.ne']
      exact iff_of_true (past_top _) (by omega)
  · have hb' : (0 : ℚ) < baseline := by exact_mod_cast hb
    rw [if_neg hb.ne', past_zero_coe, lt_div_iff₀ hb', ← Int.cast_lt (R := ℚ)]
    push_cast
    constructor <;> intro h <;> linarith

/-- With at most 142857 cases the rounded rates tell one case from none. -/
theorem rateMillionths_gap {xs ys : List CaseResult} (hlength : xs.length = ys.length)
    (hcases : ys.length ≤ 142857) (hfewer : passedCount xs < passedCount ys) :
    rateMillionths xs + 6 ≤ rateMillionths ys := by
  have hpositive : 0 < ys.length :=
    (Nat.zero_le _).trans_lt (hfewer.trans_le (List.length_filter_le _ _))
  have hn : (0 : ℚ) < ys.length := by exact_mod_cast hpositive
  have hone : (passedCount xs : ℚ) + 1 ≤ passedCount ys := by exact_mod_cast hfewer
  have hcases' : (ys.length : ℚ) ≤ 142857 := by exact_mod_cast hcases
  -- the exact rates differ by at least seven millionths, each rounding moves them by a half of one
  have hrates : ((1000000 * passedCount xs : ℤ) : ℚ) / ys.length + 7
      ≤ ((1000000 * passedCount ys : ℤ) : ℚ) / ys.length := by
    rw [div_add' _ _ _ hn.ne', div_le_div_iff_of_pos_right hn]
    push_cast
    linarith
  have hx := abs_le.mp (abs_roundHalfEven_sub_le ((1000000 * passedCount xs : ℤ) / ys.length))
  have hy := abs_le.mp (abs_roundHalfEven_sub_le ((1000000 * passedCount ys : ℤ) / ys.length))
  rw [roundHalfEven_div _ hpositive] at hx hy
  have hgap : (rateMillionths xs : ℚ) + 6 ≤ rateMillionths ys := by
    unfold rateMillionths
    rw [hlength]
    linarith
  exact_mod_cast hgap

theorem past_zero_loss_iff {baseline candidate : List CaseResult}
    (hlength : candidate.length = baseline.length) (hcases : baseline.length ≤ 142857) :
    Past (1000 * 0) (((rateMillionths baseline - rateMillionths candidate) / 10 : ℚ) : WithTop ℚ)
      ↔ passedCount candidate < passedCount baseline := by
  have hfive : (1 : ℚ) / 2 < (rateMillionths baseline - rateMillionths candidate) / 10
      ↔ rateMillionths candidate + 5 < rateMillionths baseline := by
    rw [← Int.cast_lt (R := ℚ)]
    push_cast
    constructor <;> intro h <;> linarith
  rw [past_zero_coe, hfive]
  constructor
  · intro hloss
    by_contra hnot
    rcases (not_lt.mp hnot).eq_or_lt with hsame | hmore
    · rw [rateMillionths, rateMillionths, hlength, hsame] at hloss
      omega
    · have hgap := rateMillionths_gap hlength.symm (hlength ▸ hcases) hmore
      omega
  · intro hfewer
    have hgap := rateMillionths_gap hlength hcases hfewer
    omega

/-! ### Verdicts -/

/-- A case took some time and cost something. -/
structure Measurable (cases : List CaseResult) : Prop where
  latency : ∀ r ∈ cases, 0 ≤ r.latencyMs
  cost : ∀ r ∈ cases, 0 ≤ r.estimatedCostMicrousd

theorem Measurable.totals (h : Measurable cases) : 0 ≤ totalLatency cases ∧ 0 ≤ totalCost cases :=
  ⟨List.sum_nonneg (by simpa using h.latency), List.sum_nonneg (by simpa using h.cost)⟩

theorem Measurable.latencyThousandths_nonneg (h : Measurable cases) (hne : cases ≠ []) :
    0 ≤ latencyThousandths cases := by
  have htotal : (0 : ℚ) ≤ (1000 * totalLatency cases : ℤ) := by
    exact_mod_cast mul_nonneg (by norm_num) h.totals.1
  rw [latencyThousandths, ← roundHalfEven_div _ (List.length_pos_iff.mpr hne)]
  exact roundHalfEven_nonneg (by positivity)

/-- **When the verdicts are exact.** For results of the same number `n` of cases, in thousandths of a
point or of a percent: the quality verdict is the one of the exact pass rates exactly when the gate
does not misjudge the loss of passed cases, `100000 * (passed - passed') / n`, through the loss of
the rates in millionths; the latency verdict is the one of the totals exactly when the gate does not
misjudge their rise through that of the averages in thousandths; and the cost verdict exactly when
the rise of the totals is not in the lower half of the gate's thousandth and above the gate, or in
its upper half and not above it. With no tolerance, fewer passed cases are always seen among at most
142857 cases, and a higher cost only if it has risen by more than one part in 200000. -/
theorem regression_verdicts_exact_iff {baseline candidate : List CaseResult} (hne : baseline ≠ [])
    (hlength : candidate.length = baseline.length) (hbaseline : Measurable baseline)
    (hcandidate : Measurable candidate) (gates : RegressionGates) :
    ∃ baselineSummary candidateSummary compared,
      summarize .exact baseline = .ok baselineSummary
        ∧ summarize .exact candidate = .ok candidateSummary
        ∧ comparison .exact baselineSummary candidateSummary gates = .ok compared
        ∧ ((compared.quality.regressed = true
              ↔ 100 * ((passedCount candidate : ℚ) - passedCount baseline) / baseline.length
                < -gates.maxQualityRegressionPoints)
            ↔ ¬ Misjudged (1000 * gates.maxQualityRegressionPoints)
                ((100000 * ((passedCount baseline : ℚ) - passedCount candidate) / baseline.length
                  : ℚ) : WithTop ℚ)
                (((rateMillionths baseline - rateMillionths candidate) / 10 : ℚ) : WithTop ℚ))
        ∧ (∀ p, gates.maxLatencyRegressionPercent = some p →
            ((compared.latency.regressed = true
                ↔ ExceedsBy p (totalLatency baseline) (totalLatency candidate))
              ↔ ¬ Misjudged (1000 * p) (rise (totalLatency baseline) (totalLatency candidate))
                  (rise (latencyThousandths baseline) (latencyThousandths candidate))))
        ∧ (∀ p, gates.maxCostRegressionPercent = some p →
            ((compared.cost.regressed = true
                ↔ ExceedsBy p (totalCost baseline) (totalCost candidate))
              ↔ ¬ Misjudged (1000 * p) (rise (totalCost baseline) (totalCost candidate))
                  (rise (totalCost baseline) (totalCost candidate))))
        ∧ (gates.maxQualityRegressionPoints = 0 → baseline.length ≤ 142857 →
            (compared.quality.regressed = true ↔ passedCount candidate < passedCount baseline))
        ∧ (gates.maxCostRegressionPercent = some 0 →
            (compared.cost.regressed = true
              ↔ totalCost baseline < 200000 * (totalCost candidate - totalCost baseline)))
        ∧ (gates.maxLatencyRegressionPercent = none → compared.latency.regressed = false)
        ∧ (gates.maxCostRegressionPercent = none → compared.cost.regressed = false) := by
  have hne' : candidate ≠ [] := List.length_pos_iff.mp (hlength ▸ List.length_pos_iff.mpr hne)
  obtain ⟨latency, hlatencyOk, hlatencyUnset, hlatencySet⟩ :=
    @metric_verdict (.float (latencyThousandths baseline / 1000))
      (.float (latencyThousandths candidate / 1000)) _ _ 1000 (by norm_num) rfl rfl
      (hcandidate.latencyThousandths_nonneg hne') gates.maxLatencyRegressionPercent
  obtain ⟨cost, hcostOk, hcostUnset, hcostSet⟩ :=
    @metric_verdict (.int (totalCost baseline)) (.int (totalCost candidate)) _ _ 1 one_pos
      (div_one _).symm (div_one _).symm hcandidate.totals.2 gates.maxCostRegressionPercent
  refine ⟨_, _, _, summarize_exact hne, summarize_exact hne',
    by simp only [comparison, hlatencyOk, hcostOk]; rfl, ?quality, fun p hp => ?latency,
    fun p hp => ?cost, fun hzero hcases => ?noLoss, fun hzero => ?noRise, hlatencyUnset, hcostUnset⟩
  case quality =>
    have hloss : 100 * ((passedCount candidate : ℚ) - passedCount baseline) / baseline.length
          < -gates.maxQualityRegressionPoints
        ↔ 1000 * gates.maxQualityRegressionPoints
          < 100000 * ((passedCount baseline : ℚ) - passedCount candidate) / baseline.length := by
      have hscale : 100000 * ((passedCount baseline : ℚ) - passedCount candidate) / baseline.length
          = -1000 * (100 * ((passedCount candidate : ℚ) - passedCount baseline) / baseline.length) := by
        ring
      rw [hscale]
      constructor <;> intro h <;> linarith
    rw [← past_iff_misjudged, decide_eq_true_eq, quality_verdict, hloss, WithTop.coe_lt_coe]
  case latency =>
    rw [← past_iff_misjudged, hlatencySet p hp,
      exceedsBy_iff hbaseline.totals.1 hcandidate.totals.1 (gates.latency_nonneg p hp)]
  case cost =>
    rw [← past_iff_misjudged, hcostSet p hp,
      exceedsBy_iff hbaseline.totals.2 hcandidate.totals.2 (gates.cost_nonneg p hp)]
  case noLoss => rw [decide_eq_true_eq, quality_verdict, hzero, past_zero_loss_iff hlength hcases]
  case noRise =>
    rw [hcostSet 0 hzero, past_zero_rise_iff hbaseline.totals.2 hcandidate.totals.2]

/-- The result of one case with a cost. -/
def costlyCase (cost : ℤ) : List CaseResult := [⟨"a", true, 5, cost, .rules []⟩]

/-- A doubled cost is seen by gates that tolerate no rise, a case that passes again is not. -/
theorem regression_verdicts_exact_doubled :
    ∃ gates baselineSummary candidateSummary compared,
      RegressionGates.postInit 0 none (some 0) = .ok gates
        ∧ summarize .exact (costlyCase 1) = .ok baselineSummary
        ∧ summarize .exact (costlyCase 2) = .ok candidateSummary
        ∧ comparison .exact baselineSummary candidateSummary gates = .ok compared
        ∧ compared.quality.regressed = false ∧ compared.cost.regressed = true := by
  have hbaseline : Measurable (costlyCase 1) := ⟨by simp [costlyCase], by simp [costlyCase]⟩
  have hcandidate : Measurable (costlyCase 2) := ⟨by simp [costlyCase], by simp [costlyCase]⟩
  have hlength : (costlyCase 2).length = (costlyCase 1).length := rfl
  have hgates : RegressionGates.postInit 0 none (some 0) = .ok _ :=
    dif_pos ⟨le_refl 0, by simp, by simp⟩
  obtain ⟨b, c, compared, hb, hc, hcompared, -, -, -, hquality, hcost, -⟩ :=
    regression_verdicts_exact_iff (by simp [costlyCase]) hlength hbaseline hcandidate _
  refine ⟨_, b, c, compared, hgates, hb, hc, hcompared, ?_, (hcost rfl).mpr (by decide)⟩
  exact Bool.eq_false_iff.mpr fun hregressed =>
    absurd ((hquality rfl (by decide)).mp hregressed) (by decide)

/-- A candidate that costs strictly more passes gates that tolerate no rise. -/
theorem dearer_candidate_passes :
    totalCost (costlyCase 1000000) < totalCost (costlyCase 1000001)
      ∧ (do
          let gates ← RegressionGates.postInit 0 none (some 0)
          let baseline ← summarize .exact (costlyCase 1000000)
          let candidate ← summarize .exact (costlyCase 1000001)
          let compared ← comparison .exact baseline candidate gates
          pure compared.passed).toOption = some true := by
  decide +kernel

end AgentRuntime.Evaluation
