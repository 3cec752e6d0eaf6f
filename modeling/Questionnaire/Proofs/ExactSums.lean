import Mathlib.Algebra.Order.BigOperators.Group.List
import Questionnaire.Proofs.Addition
import Questionnaire.Proofs.ValueOrder

/-! Sums of values and of times. While the absolute values fit, nothing is rounded, so that neither
order nor grouping matters; beyond that a sum is the nearest number at every step or an overflow. -/
namespace Questionnaire

namespace Decimal

/-- The exact sum. -/
def total (ds : List Decimal) : Rat := (ds.map toRat).sum

/-- The exact sum of the absolute values. -/
def magnitude (ds : List Decimal) : Rat := (ds.map fun d => |d.toRat|).sum

def largestScale (ds : List Decimal) : Nat := (ds.map scale).foldr max 0

/-- At the largest scale even the absolute values together have at most 96 bits. -/
def SumFits (ds : List Decimal) : Prop := magnitude ds * 10 ^ largestScale ds < 2 ^ 96

instance (ds : List Decimal) : Decidable (SumFits ds) :=
  inferInstanceAs (Decidable (magnitude ds * 10 ^ largestScale ds < 2 ^ 96))

variable {ds es : List Decimal}

@[simp] theorem total_nil : total [] = 0 := rfl

@[simp] theorem total_cons (d : Decimal) (ds : List Decimal) :
    total (d :: ds) = d.toRat + total ds :=
  List.sum_cons

@[simp] theorem magnitude_nil : magnitude [] = 0 := rfl

@[simp] theorem magnitude_cons (d : Decimal) (ds : List Decimal) :
    magnitude (d :: ds) = |d.toRat| + magnitude ds :=
  List.sum_cons

@[simp] theorem total_append (ds es : List Decimal) : total (ds ++ es) = total ds + total es := by
  rw [total, List.map_append, List.sum_append, total, total]

@[simp] theorem magnitude_append (ds es : List Decimal) :
    magnitude (ds ++ es) = magnitude ds + magnitude es := by
  rw [magnitude, List.map_append, List.sum_append, magnitude, magnitude]

@[simp] theorem largestScale_cons (d : Decimal) (ds : List Decimal) :
    largestScale (d :: ds) = max d.scale (largestScale ds) :=
  rfl

theorem largestScale_le_iff {s : Nat} : largestScale ds ≤ s ↔ ∀ d ∈ ds, d.scale ≤ s := by
  induction ds with
  | nil => simp [largestScale]
  | cons d rest ih =>
    rw [List.forall_mem_cons, ← ih]
    exact Nat.max_le

theorem largestScale_append (ds es : List Decimal) :
    largestScale (ds ++ es) = max (largestScale ds) (largestScale es) := by
  refine eq_of_forall_ge_iff fun s => ?_
  rw [Nat.max_le, largestScale_le_iff, largestScale_le_iff, largestScale_le_iff,
    List.forall_mem_append]

theorem scale_le_largestScale {d : Decimal} (h : d ∈ ds) : d.scale ≤ largestScale ds :=
  largestScale_le_iff.mp le_rfl d h

theorem magnitude_nonneg (ds : List Decimal) : 0 ≤ magnitude ds := by
  induction ds with
  | nil => exact le_rfl
  | cons d rest ih =>
    rw [magnitude_cons]
    exact add_nonneg (abs_nonneg _) ih

theorem abs_total_le (ds : List Decimal) : |total ds| ≤ magnitude ds := by
  induction ds with
  | nil => simp
  | cons d rest ih =>
    rw [total_cons, magnitude_cons]
    exact (abs_add_le _ _).trans (add_le_add le_rfl ih)

theorem SumFits.mono {m : Rat} {s : Nat} (hm : m ≤ magnitude ds) (hs : s ≤ largestScale ds)
    (h : SumFits ds) : m * 10 ^ s < 2 ^ 96 := by
  have hpower : (10 : Rat) ^ s ≤ 10 ^ largestScale ds := pow_le_pow_right₀ (by norm_num) hs
  have hscaled : m * 10 ^ s ≤ magnitude ds * 10 ^ s := mul_le_mul_of_nonneg_right hm (by positivity)
  have hplaces := mul_le_mul_of_nonneg_left hpower (magnitude_nonneg ds)
  exact (hscaled.trans hplaces).trans_lt h

theorem SumFits.of_perm (hperm : ds.Perm es) (h : SumFits ds) : SumFits es := by
  have hmagnitude : magnitude es = magnitude ds := (hperm.map _).sum_eq.symm
  have hscale : largestScale es ≤ largestScale ds :=
    largestScale_le_iff.mpr fun d hd => scale_le_largestScale (hperm.mem_iff.mpr hd)
  exact h.mono hmagnitude.le hscale

theorem total_eq_of_perm (hperm : ds.Perm es) : total ds = total es := (hperm.map _).sum_eq

theorem SumFits.left (h : SumFits (ds ++ es)) : SumFits ds := by
  refine h.mono ?_ (largestScale_le_iff.mpr fun d hd => ?_)
  · rw [magnitude_append]
    exact le_add_of_nonneg_right (magnitude_nonneg es)
  · exact scale_le_largestScale (List.mem_append_left es hd)

theorem SumFits.right (h : SumFits (ds ++ es)) : SumFits es :=
  (h.of_perm List.perm_append_comm).left

/-- Numbers may be replaced by their sum if it has no more places than one of them. -/
theorem SumFits.collapse {d : Decimal} (h : SumFits (ds ++ es)) (hvalue : d.toRat = total ds)
    (hscale : d.scale ≤ largestScale ds) : SumFits (d :: es) := by
  refine h.mono ?_ ?_
  · rw [magnitude_cons, magnitude_append, hvalue]
    exact add_le_add (abs_total_le ds) le_rfl
  · rw [largestScale_cons, largestScale_append]
    exact max_le_max hscale le_rfl

theorem SumFits.exists_add? {a b : Decimal} (h : SumFits [a, b]) :
    ∃ d, a.add? b = some d ∧ d.toRat = total [a, b] ∧ d.scale ≤ largestScale [a, b] := by
  have htotal : total [a, b] = a.toRat + b.toRat := by simp
  have hscale : largestScale [a, b] = max a.scale b.scale := by simp [largestScale]
  rw [htotal, hscale]
  refine exists_add?_of_fits (h.mono ?_ hscale.ge)
  rw [← htotal]
  exact abs_total_le [a, b]

/-- A number fits by itself. -/
theorem sumFits_singleton (d : Decimal) : SumFits [d] := by
  have hcoefficient : (d.coefficient : Rat) < coefficientBound := by
    exact_mod_cast d.coefficient_lt
  rw [cast_coefficientBound, ← abs_toRat_mul_pow] at hcoefficient
  simpa [SumFits, largestScale] using hcoefficient

theorem sumFits_zero_cons (h : SumFits ds) : SumFits (.zero :: ds) := by
  refine h.mono ?_ ?_
  · rw [magnitude_cons, toRat_of_isZero (by rfl), abs_zero, zero_add]
  · rw [largestScale_cons]
    exact Nat.max_le.mpr ⟨Nat.zero_le _, le_rfl⟩

end Decimal

namespace Value

/-- Null, or a value that converts to a number. -/
def IsSummand (v : Value) : Prop := v = .null ∨ ∃ d, v.asNumber "sum" = .ok d

/-- The numbers that the values convert to, without the nulls. -/
def numbers (vs : List Value) : List Decimal := vs.filterMap decimal?

variable {v : Value} {vs ws : List Value}

theorem numbers_cons (v : Value) (vs : List Value) :
    numbers (v :: vs) = numbers [v] ++ numbers vs :=
  List.filterMap_append (l := [v])

theorem numbers_append (vs ws : List Value) : numbers (vs ++ ws) = numbers vs ++ numbers ws :=
  List.filterMap_append

theorem addSummand_eq {n : Decimal} (h : v.summand = .ok n) (start : Decimal) :
    addSummand start v = match start.add? n with
      | some d => .ok d
      | none => .error (.overflow (.sum start n)) := by
  rw [addSummand, h]
  rfl

/-- Null adds nothing, and any other summand the number that it converts to. -/
theorem IsSummand.cases (h : v.IsSummand) :
    (v.summand = .ok .zero ∧ numbers [v] = []) ∨ ∃ d, v.summand = .ok d ∧ numbers [v] = [d] := by
  rcases h with rfl | ⟨d, hd⟩
  · exact .inl ⟨rfl, rfl⟩
  · have hdecimal := asNumber_eq_ok_iff.mp hd
    refine .inr ⟨d, ?_, ?_⟩
    · cases v with
      | null => cases hdecimal
      | _ => exact hd
    · rw [numbers, List.filterMap_cons, hdecimal]
      rfl

/-- One step: the value that is added fits beside the sum so far. -/
theorem IsSummand.exists_addSummand (h : v.IsSummand) {start : Decimal}
    (hfits : Decimal.SumFits (start :: numbers [v])) :
    ∃ d, addSummand start v = .ok d ∧ d.toRat = Decimal.total (start :: numbers [v]) ∧
      d.scale ≤ Decimal.largestScale (start :: numbers [v]) := by
  rcases h.cases with ⟨hsummand, hnumbers⟩ | ⟨n, hsummand, hnumbers⟩
  · have hzero : Decimal.SumFits [start, .zero] :=
      (Decimal.sumFits_zero_cons (Decimal.sumFits_singleton start)).of_perm (.swap _ _ _)
    obtain ⟨d, hadd, hvalue, hscale⟩ := hzero.exists_add?
    refine ⟨d, by rw [addSummand_eq hsummand, hadd], ?_, ?_⟩
    · rw [hnumbers, hvalue, Decimal.total_cons, Decimal.total_cons, Decimal.total_cons,
        Decimal.toRat_of_isZero (d := .zero) (by rfl), zero_add]
    · rw [hnumbers]
      exact hscale.trans (le_of_eq rfl)
  · rw [hnumbers] at hfits ⊢
    obtain ⟨d, hadd, hvalue, hscale⟩ := hfits.exists_add?
    exact ⟨d, by rw [addSummand_eq hsummand, hadd], hvalue, hscale⟩

/-- A run: whatever the values are added to, a sum that fits is exact. -/
theorem exists_foldlM_of_fits {start : Decimal} (hsummands : ∀ v ∈ vs, v.IsSummand)
    (hfits : Decimal.SumFits (start :: numbers vs)) :
    ∃ d, vs.foldlM addSummand start = .ok d ∧ d.toRat = Decimal.total (start :: numbers vs) ∧
      d.scale ≤ Decimal.largestScale (start :: numbers vs) := by
  induction vs generalizing start with
  | nil => exact ⟨start, rfl, by simp [numbers], by simp⟩
  | cons v rest ih =>
    rw [numbers_cons, ← List.cons_append] at hfits ⊢
    obtain ⟨d, hd, hvalue, hscale⟩ :=
      (hsummands v List.mem_cons_self).exists_addSummand hfits.left
    obtain ⟨e, he, hevalue, hescale⟩ := ih (fun w hw => hsummands w (List.mem_cons_of_mem v hw))
      (hfits.collapse hvalue hscale)
    refine ⟨e, ?_, ?_, ?_⟩
    · rw [List.foldlM_cons, hd]
      exact he
    · rw [hevalue, Decimal.total_cons, hvalue, Decimal.total_append]
    · rw [Decimal.largestScale_append]
      exact hescale.trans (max_le_max hscale le_rfl)

theorem exists_sum_of_fits (hsummands : ∀ v ∈ vs, v.IsSummand)
    (hfits : Decimal.SumFits (numbers vs)) :
    ∃ d, sum vs = .ok d ∧ d.toRat = Decimal.total (numbers vs) ∧
      d.scale ≤ Decimal.largestScale (numbers vs) := by
  obtain ⟨d, hd, hvalue, hscale⟩ :=
    exists_foldlM_of_fits hsummands (Decimal.sumFits_zero_cons hfits)
  refine ⟨d, hd, ?_, hscale.trans (Nat.max_le.mpr ⟨Nat.zero_le _, le_rfl⟩)⟩
  rw [hvalue, Decimal.total_cons, Decimal.toRat_of_isZero (by rfl), zero_add]

/-- The values that are not null. -/
def withoutNulls (vs : List Value) : List Value := vs.filter fun v => !v.isNull

theorem mem_withoutNulls_iff : v ∈ withoutNulls vs ↔ v ∈ vs ∧ v ≠ .null := by
  rw [withoutNulls, List.mem_filter]
  cases v <;> simp [isNull]

theorem numbers_withoutNulls (vs : List Value) : numbers (withoutNulls vs) = numbers vs := by
  rw [numbers, withoutNulls, List.filterMap_filter]
  refine List.filterMap_congr fun v _ => ?_
  cases v <;> rfl

/-- Neither the order of the values nor nulls among them matter. -/
theorem exists_sum_of_perm (hsummands : ∀ v ∈ vs, v.IsSummand)
    (hfits : Decimal.SumFits (numbers vs)) (hperm : (withoutNulls vs).Perm (withoutNulls ws)) :
    ∃ d, sum ws = .ok d ∧ d.toRat = Decimal.total (numbers vs) := by
  have hnumbers : (numbers vs).Perm (numbers ws) := by
    rw [← numbers_withoutNulls vs, ← numbers_withoutNulls ws]
    exact hperm.filterMap decimal?
  have hothers : ∀ w ∈ ws, w.IsSummand := by
    intro w hw
    by_cases hnull : w = .null
    · exact .inl hnull
    · have hmem := hperm.mem_iff.mpr (mem_withoutNulls_iff.mpr ⟨hw, hnull⟩)
      exact hsummands w (mem_withoutNulls_iff.mp hmem).1
  obtain ⟨d, hd, hvalue, -⟩ := exists_sum_of_fits hothers (hfits.of_perm hnumbers)
  exact ⟨d, hd, hvalue.trans (Decimal.total_eq_of_perm hnumbers).symm⟩

/-- The sums of two parts add up to the sum of all. -/
theorem exists_sum_of_parts (hsummands : ∀ v ∈ vs ++ ws, v.IsSummand)
    (hfits : Decimal.SumFits (numbers (vs ++ ws))) :
    ∃ a b c, sum vs = .ok a ∧ sum ws = .ok b ∧ sum [.number a, .number b] = .ok c ∧
      c.toRat = Decimal.total (numbers (vs ++ ws)) := by
  rw [numbers_append] at hfits ⊢
  rw [List.forall_mem_append] at hsummands
  obtain ⟨a, ha, havalue, hascale⟩ := exists_sum_of_fits hsummands.1 hfits.left
  obtain ⟨b, hb, hbvalue, hbscale⟩ := exists_sum_of_fits hsummands.2 hfits.right
  have hfirst : Decimal.SumFits (a :: numbers ws) := hfits.collapse havalue hascale
  have hboth : Decimal.SumFits [b, a] :=
    (hfirst.of_perm (List.perm_append_singleton a _).symm).collapse hbvalue hbscale
  have hpair : ∀ v ∈ [number a, number b], v.IsSummand := by
    intro v hv
    rcases List.mem_pair.mp hv with rfl | rfl
    · exact .inr ⟨a, rfl⟩
    · exact .inr ⟨b, rfl⟩
  obtain ⟨c, hc, hcvalue, -⟩ :=
    exists_sum_of_fits hpair (hboth.of_perm (.swap a b []) : Decimal.SumFits [a, b])
  refine ⟨a, b, c, ha, hb, hc, ?_⟩
  have hnumbers : numbers [number a, number b] = [a, b] := rfl
  rw [hcvalue, hnumbers, Decimal.total_append, ← havalue, ← hbvalue]
  simp

theorem offset_eq (base seconds : Decimal) :
    offset base seconds = match base.add? seconds with
      | some d => .ok d
      | none => .error (.overflow (.offset base seconds)) :=
  rfl

theorem exists_offset_of_fits {base seconds : Decimal} (hfits : Decimal.SumFits [base, seconds]) :
    ∃ d, offset base seconds = .ok d ∧ d.toRat = Decimal.total [base, seconds] ∧
      d.scale ≤ Decimal.largestScale [base, seconds] := by
  obtain ⟨d, hadd, hvalue, hscale⟩ := hfits.exists_add?
  exact ⟨d, by rw [offset_eq, hadd], hvalue, hscale⟩

/-- Two offsets one after the other are the offset by their sum. -/
theorem exists_offsets_of_fits {base first second : Decimal}
    (hfits : Decimal.SumFits [base, first, second]) :
    ∃ t u both w, offset base first = .ok t ∧ offset t second = .ok u ∧
      first.add? second = some both ∧ offset base both = .ok w ∧
      u.toRat = Decimal.total [base, first, second] ∧ w.toRat = u.toRat := by
  have hfront : Decimal.SumFits ([base, first] ++ [second]) := hfits
  have hback : Decimal.SumFits ([first, second] ++ [base]) :=
    hfits.of_perm (List.perm_append_singleton base [first, second]).symm
  obtain ⟨t, ht, htvalue, htscale⟩ := exists_offset_of_fits hfront.left
  obtain ⟨u, hu, huvalue, -⟩ := exists_offset_of_fits (hfront.collapse htvalue htscale)
  obtain ⟨both, hboth, hbothvalue, hbothscale⟩ := hback.left.exists_add?
  have hsum : Decimal.SumFits [base, both] :=
    (hback.collapse hbothvalue hbothscale).of_perm (.swap base both [])
  obtain ⟨w, hw, hwvalue, -⟩ := exists_offset_of_fits hsum
  refine ⟨t, u, both, w, ht, hu, hboth, hw, ?_, ?_⟩
  · rw [huvalue, Decimal.total_cons, htvalue]
    simp [add_assoc]
  · rw [hwvalue, huvalue, Decimal.total_cons, Decimal.total_cons, Decimal.total_cons,
      Decimal.total_cons, hbothvalue, htvalue]
    simp [add_assoc]

theorem IsSummand.exists_summand (h : v.IsSummand) :
    ∃ n, v.summand = .ok n ∧ Decimal.total (numbers [v]) = n.toRat := by
  rcases h.cases with ⟨hsummand, hnumbers⟩ | ⟨n, hsummand, hnumbers⟩
  · refine ⟨.zero, hsummand, ?_⟩
    rw [hnumbers, Decimal.toRat_of_isZero (by rfl), Decimal.total_nil]
  · refine ⟨n, hsummand, ?_⟩
    rw [hnumbers, Decimal.total_cons, Decimal.total_nil, add_zero]

/-- A run without any bound: each addition rounds by at most a half, and the first one beyond the
greatest coefficient is reported. -/
theorem foldlM_cases (start : Decimal) (hsummands : ∀ v ∈ vs, v.IsSummand) :
    (∃ d, vs.foldlM addSummand start = .ok d ∧
        |d.toRat - (start.toRat + Decimal.total (numbers vs))| ≤ vs.length / 2) ∨
      ∃ before v after t n, vs = before ++ v :: after ∧
        before.foldlM addSummand start = .ok t ∧ v.summand = .ok n ∧
        2 ^ 96 - 1 / 2 ≤ |t.toRat + n.toRat| ∧
        vs.foldlM addSummand start = .error (.overflow (.sum t n)) := by
  induction vs generalizing start with
  | nil => exact .inl ⟨start, rfl, by simp [numbers]⟩
  | cons v rest ih =>
    obtain ⟨n, hsummand, hn⟩ := (hsummands v List.mem_cons_self).exists_summand
    have hstep := addSummand_eq hsummand start
    cases hadd : start.add? n with
    | none =>
      rw [hadd] at hstep
      refine .inr ⟨[], v, rest, start, n, rfl, rfl, hsummand, Decimal.add?_eq_none_iff.mp hadd, ?_⟩
      rw [List.foldlM_cons, hstep]
      rfl
    | some d =>
      rw [hadd] at hstep
      have hrun : (v :: rest).foldlM addSummand start = rest.foldlM addSummand d := by
        rw [List.foldlM_cons, hstep]
        rfl
      rcases ih d fun w hw => hsummands w (List.mem_cons_of_mem v hw) with
        ⟨e, he, herror⟩ | ⟨before, w, after, t, m, rfl, ht, hm, hlarge, hoverflow⟩
      · refine .inl ⟨e, hrun.trans he, ?_⟩
        have hfirst := Decimal.abs_sub_le_half_of_add? hadd
        have htriangle := abs_add_le (e.toRat - (d.toRat + Decimal.total (numbers rest)))
          (d.toRat - (start.toRat + n.toRat))
        have hsum : e.toRat - (start.toRat + Decimal.total (numbers (v :: rest))) =
            e.toRat - (d.toRat + Decimal.total (numbers rest)) +
              (d.toRat - (start.toRat + n.toRat)) := by
          rw [numbers_cons, Decimal.total_append, hn]
          ring
        rw [hsum, List.length_cons]
        push_cast
        linarith
      · refine .inr ⟨v :: before, w, after, t, m, rfl, ?_, hm, hlarge, hrun.trans hoverflow⟩
        rw [List.foldlM_cons, hstep]
        exact ht

theorem offset_cases (base seconds : Decimal) :
    (∃ d, offset base seconds = .ok d ∧
        |d.toRat - (base.toRat + seconds.toRat)| ≤ 1 / 2 / 10 ^ d.scale) ∨
      (2 ^ 96 - 1 / 2 ≤ |base.toRat + seconds.toRat| ∧
        offset base seconds = .error (.overflow (.offset base seconds))) := by
  rw [offset_eq]
  cases hadd : base.add? seconds with
  | none => exact .inr ⟨Decimal.add?_eq_none_iff.mp hadd, rfl⟩
  | some d => exact .inl ⟨d, rfl, Decimal.error_of_add? hadd⟩

/-- While the absolute values fit at the largest scale, a sum is exact, in any order, with any nulls
among the values and in any grouping, and offsets add up. Beyond that a sum of values that convert
is off by at most a half for each value, or else it is an overflow at a step that exceeds the
greatest coefficient; and the same holds of an offset, which is nearest to the exact time. -/
theorem sums_are_exact :
    (∀ vs, (∀ v ∈ vs, v.IsSummand) → Decimal.SumFits (numbers vs) →
      (∃ d, sum vs = .ok d ∧ d.toRat = Decimal.total (numbers vs)) ∧
      (∀ ws, (withoutNulls vs).Perm (withoutNulls ws) →
        ∃ d, sum ws = .ok d ∧ d.toRat = Decimal.total (numbers vs)) ∧
      ∀ front back, vs = front ++ back → ∃ a b d, sum front = .ok a ∧ sum back = .ok b ∧
        sum [.number a, .number b] = .ok d ∧ d.toRat = Decimal.total (numbers vs)) ∧
    (∀ base first second, Decimal.SumFits [base, first, second] →
      ∃ t u both w, offset base first = .ok t ∧ offset t second = .ok u ∧
        first.add? second = some both ∧ offset base both = .ok w ∧
        u.toRat = Decimal.total [base, first, second] ∧ w.toRat = u.toRat) ∧
    (∀ vs, (∀ v ∈ vs, v.IsSummand) →
      (∃ d, sum vs = .ok d ∧ |d.toRat - Decimal.total (numbers vs)| ≤ vs.length / 2) ∨
      ∃ before v after t n, vs = before ++ v :: after ∧ sum before = .ok t ∧
        v.summand = .ok n ∧ 2 ^ 96 - 1 / 2 ≤ |t.toRat + n.toRat| ∧
        sum vs = .error (.overflow (.sum t n))) ∧
    ∀ base seconds,
      (∃ d, offset base seconds = .ok d ∧
        |d.toRat - (base.toRat + seconds.toRat)| ≤ 1 / 2 / 10 ^ d.scale) ∨
      (2 ^ 96 - 1 / 2 ≤ |base.toRat + seconds.toRat| ∧
        offset base seconds = .error (.overflow (.offset base seconds))) := by
  refine ⟨fun vs hsummands hfits => ⟨?_, ?_, ?_⟩, ?_, fun vs hsummands => ?_, offset_cases⟩
  · obtain ⟨d, hd, hvalue, -⟩ := exists_sum_of_fits hsummands hfits
    exact ⟨d, hd, hvalue⟩
  · exact fun ws => exists_sum_of_perm hsummands hfits
  · rintro front back rfl
    exact exists_sum_of_parts hsummands hfits
  · exact fun base first second => exists_offsets_of_fits
  · have hzero : Decimal.zero.toRat = 0 := Decimal.toRat_of_isZero rfl
    have hcases := foldlM_cases .zero hsummands
    rw [hzero, zero_add] at hcases
    exact hcases

/-- Values whose absolute values add up to the greatest coefficient. -/
def widest : List Value := [.int (2 ^ 96 - 3), .null, .text " -1 ", .bool true]

/-- Nothing is rounded up to the last unit, from either end and in two parts; nor is a time with
half a second, moved on by a year and a quarter of a second and back by a day and a half. -/
theorem widest_sum_exact :
    let time : Decimal := ⟨false, 17000000005, 1, by decide, by decide⟩
    let year : Decimal := ⟨false, 3153600025, 2, by decide, by decide⟩
    let back : Decimal := ⟨true, 129600, 0, by decide, by decide⟩
    Decimal.SumFits (numbers widest) ∧
      (∃ d, sum widest.reverse = .ok d ∧ d.toRat = 2 ^ 96 - 3) ∧
      (∃ a b d, sum [.int (2 ^ 96 - 3), .null] = .ok a ∧ sum [.text " -1 ", .bool true] = .ok b ∧
        sum [.number a, .number b] = .ok d ∧ d.toRat = 2 ^ 96 - 3) ∧
      ∃ t u both w, offset time year = .ok t ∧ offset t back = .ok u ∧
        year.add? back = some both ∧ offset time both = .ok w ∧ w.toRat = 1731406400.75 := by
  intro time year back
  obtain ⟨hsums, hoffsets, -, -⟩ := sums_are_exact
  have hsummands : ∀ v ∈ widest, v.IsSummand := by
    simp only [widest, List.forall_mem_cons, List.not_mem_nil, false_imp_iff, implies_true,
      and_true]
    exact ⟨.inr ⟨_, rfl⟩, .inl rfl, .inr ⟨_, rfl⟩, .inr ⟨_, rfl⟩⟩
  have hfits : Decimal.SumFits (numbers widest) := by decide +kernel
  have htotal : Decimal.total (numbers widest) = 2 ^ 96 - 3 := by decide +kernel
  obtain ⟨-, hperm, hparts⟩ := hsums widest hsummands hfits
  rw [htotal] at hperm hparts
  have hreverse : (withoutNulls widest).Perm (withoutNulls widest.reverse) :=
    (List.reverse_perm widest).symm.filter _
  have htimes : Decimal.SumFits [time, year, back] := by decide +kernel
  obtain ⟨t, u, both, w, ht, hu, hboth, hw, hvalue, hsame⟩ := hoffsets _ _ _ htimes
  refine ⟨hfits, hperm _ hreverse, hparts _ _ rfl, t, u, both, w, ht, hu, hboth, hw, ?_⟩
  rw [hsame, hvalue]
  decide +kernel

end Value

end Questionnaire
