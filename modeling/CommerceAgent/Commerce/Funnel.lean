import CommerceAgent.Agent.Diagnosis
import CommerceAgent.Numeric.Rounding

/-!
# The funnel comparison

`compare_funnel` splits the change of the paid orders between two windows into what the
clicks and what the conversion rate contribute, and `_render_diagnosis` writes the two
parts as whole orders. The numbers are rational; a division by zero raises, as it does in
the source.
-/

namespace CommerceAgent

open Numeric

/-- `numerator / denominator` of two integers. -/
def truediv (numerator denominator : ℤ) : Except Exn ℚ :=
  if denominator = 0 then .error (.other "ZeroDivisionError")
  else .ok ((numerator : ℚ) / denominator)

/-- `_rate`. -/
def rate (numerator denominator : ℤ) : Except Exn (Option ℚ) :=
  if denominator = 0 then .ok none else (truediv numerator denominator).map some

/-- The counts of a window are validated to be non-negative. -/
structure FunnelWindow where
  impressions : ℤ
  clicks : ℤ
  paidOrders : ℤ
  clickThroughRate : Option ℚ
  conversionRate : Option ℚ
  impressions_nonneg : 0 ≤ impressions
  clicks_nonneg : 0 ≤ clicks
  paidOrders_nonneg : 0 ≤ paidOrders

/-- The constructor call `FunnelWindow(...)`; a `ValidationError` is a `ValueError`. -/
def FunnelWindow.validate (impressions clicks paidOrders : ℤ)
    (clickThroughRate conversionRate : Option ℚ) : Except Exn FunnelWindow :=
  if h : 0 ≤ impressions ∧ 0 ≤ clicks ∧ 0 ≤ paidOrders then
    .ok { impressions, clicks, paidOrders, clickThroughRate, conversionRate,
          impressions_nonneg := h.1, clicks_nonneg := h.2.1, paidOrders_nonneg := h.2.2 }
  else .error (.valueError "Input should be greater than or equal to 0")

structure FunnelComparison where
  comparison : FunnelWindow
  current : FunnelWindow
  orderChange : ℤ
  orderChangeRate : Option ℚ
  trafficContribution : Option ℚ
  conversionContribution : Option ℚ

/-- The change of the clicks at the mean conversion rate. -/
def trafficContribution (comparisonClicks currentClicks : ℤ)
    (comparisonConversion currentConversion : ℚ) : ℚ :=
  (currentClicks - comparisonClicks) * (comparisonConversion + currentConversion) / 2

/-- The change of the conversion rate at the mean number of clicks. -/
def conversionContribution (comparisonClicks currentClicks : ℤ)
    (comparisonConversion currentConversion : ℚ) : ℚ :=
  (currentConversion - comparisonConversion) * (comparisonClicks + currentClicks) / 2

/-- A contribution is computed when both conversion rates are known. -/
def contribution (f : ℚ → ℚ → ℚ) : Option ℚ → Option ℚ → Option ℚ
  | some comparisonConversion, some currentConversion =>
      some (f comparisonConversion currentConversion)
  | _, _ => none

/-- The texts of `_render_diagnosis`: `:.1%` for the rate, `:.0f` for the contributions. -/
def FunnelComparison.texts (comparison : FunnelComparison) : ComparisonTexts where
  orderChange := comparison.orderChange.repr
  rate := (comparison.orderChangeRate.map fun rate => fixed 1 (rate * 100) ++ "%").getD "无法计算"
  traffic := (comparison.trafficContribution.map (fixed 0)).getD "无法计算"
  conversion := (comparison.conversionContribution.map (fixed 0)).getD "无法计算"

/-- The rate that `_rate` returns. -/
def quotient? (numerator denominator : ℤ) : Option ℚ :=
  if denominator = 0 then none else some ((numerator : ℚ) / denominator)

/-- The counts of a window, as they are read from `metric_windows`. -/
structure WindowCounts where
  impressions : ℤ
  clicks : ℤ
  orders : ℤ

namespace WindowCounts

def Nonneg (window : WindowCounts) : Prop :=
  0 ≤ window.impressions ∧ 0 ≤ window.clicks ∧ 0 ≤ window.orders

def conversion (window : WindowCounts) : Option ℚ := quotient? window.orders window.clicks

/-- The validated window. -/
def toFunnelWindow (window : WindowCounts) (h : window.Nonneg) : FunnelWindow where
  impressions := window.impressions
  clicks := window.clicks
  paidOrders := window.orders
  clickThroughRate := quotient? window.clicks window.impressions
  conversionRate := window.conversion
  impressions_nonneg := h.1
  clicks_nonneg := h.2.1
  paidOrders_nonneg := h.2.2

/-- What `compare_funnel` returns. -/
def comparison (before after : WindowCounts) (hbefore : before.Nonneg) (hafter : after.Nonneg) :
    FunnelComparison where
  comparison := before.toFunnelWindow hbefore
  current := after.toFunnelWindow hafter
  orderChange := after.orders - before.orders
  orderChangeRate := quotient? (after.orders - before.orders) before.orders
  trafficContribution := contribution (CommerceAgent.trafficContribution before.clicks after.clicks)
    before.conversion after.conversion
  conversionContribution := contribution
    (CommerceAgent.conversionContribution before.clicks after.clicks)
    before.conversion after.conversion

variable {before after : WindowCounts}

variable (hbefore : before.Nonneg) (hafter : after.Nonneg)

end WindowCounts

/-- Where the metrics of a task are this comparison, the report of a diagnosis displays its
texts. -/
def FunnelComparison.Reported (comparison : FunnelComparison) : Prop :=
  ∀ (agent : AgentSettings) (state : AgentState) (metrics : Metrics) (diagnosis : Diagnosis),
    state.metrics = some metrics →
    agent.comparisonTexts metrics.comparison = .ok comparison.texts →
    ∃ rest, agent.renderDiagnosis state diagnosis = .ok ("\n".intercalate
      (diagnosis.summary ::
        ("订单变化：" ++ comparison.texts.orderChange ++ "（" ++ comparison.texts.rate ++ "）") ::
        ("流量贡献：" ++ comparison.texts.traffic ++ "；转化贡献：" ++
          comparison.texts.conversion) :: rest))

theorem FunnelComparison.reported (comparison : FunnelComparison) : comparison.Reported := by
  intro agent state metrics diagnosis hmetrics htexts
  constructor
  simp only [AgentSettings.renderDiagnosis, hmetrics, htexts]
  rfl

/-- The window shows these counts, and the conversion rate that they have. -/
structure FunnelWindow.Shows (window : FunnelWindow) (impressions clicks orders : ℤ) : Prop where
  impressions_eq : window.impressions = impressions
  clicks_eq : window.clicks = clicks
  paidOrders_eq : window.paidOrders = orders
  conversionRate_eq : window.conversionRate =
    if clicks = 0 then none else some ((orders : ℚ) / clicks)

end CommerceAgent
