import ExprLang.Evaluation.Arithmetic
import Mathlib.Data.Rat.Floor
import Mathlib.Tactic.FieldSimp
import Mathlib.Tactic.Linarith

namespace ExprLang

/-- The result of an operation over the integers, where there is one. -/
inductive BinaryOp.Exact : BinaryOp → Int → Int → Int → Prop
  | add (l r : Int) : Exact .add l r (l + r)
  | sub (l r : Int) : Exact .sub l r (l - r)
  | mul (l r : Int) : Exact .mul l r (l * r)
  | div (l : Int) {r : Int} (hr : r ≠ 0) : Exact .div l r ⌊(l : ℚ) / (r : ℚ)⌋
  | mod (l : Int) {r : Int} (hr : r ≠ 0) : Exact .mod l r (l - r * ⌊(l : ℚ) / (r : ℚ)⌋)
  | pow (l : Int) (k : Nat) : Exact .pow l k (l ^ k)

theorem BinaryOp.Exact.unique {op : BinaryOp} {l r n n' : Int} (h : op.Exact l r n)
    (h' : op.Exact l r n') : n = n' := by
  cases h with
  | pow l k =>
    generalize hr : (k : Int) = r at h'
    cases h' with
    | pow _ k' => rw [Int.ofNat.inj hr]
  | _ =>
    cases h'
    rfl

theorem BinaryOp.Exact.ne_zero {op : BinaryOp} {l r n : Int} (h : op.Exact l r n)
    (hop : op = .div ∨ op = .mod) : r ≠ 0 := by
  cases h with
  | div _ hr => exact hr
  | mod _ hr => exact hr
  | _ => rcases hop with hop | hop <;> cases hop

theorem BinaryOp.Exact.nonneg {op : BinaryOp} {l r n : Int} (h : op.Exact l r n)
    (hop : op = .pow) : 0 ≤ r := by
  cases h with
  | pow l k => exact Int.natCast_nonneg k
  | _ => cases hop

namespace Arithmetic

def Fits (n : Int) : Prop := Int64.minValue.toInt ≤ n ∧ n ≤ Int64.maxValue.toInt

theorem fits_iff {n : Int} :
    Fits n ↔ -9223372036854775808 ≤ n ∧ n ≤ 9223372036854775807 := Iff.rfl

theorem fits_toInt (n : Int64) : Fits n.toInt := ⟨n.minValue_le_toInt, n.toInt_le⟩

theorem ofInt?_eq_some_iff {n : Int} {m : Int64} : ofInt? n = some m ↔ m.toInt = n := by
  rw [ofInt?]
  constructor
  · intro h
    split at h
    · rename_i hn
      cases h
      obtain ⟨hmin, hmax⟩ := fits_iff.1 hn
      exact Int64.toInt_ofInt_of_le (by omega) (by omega)
    · cases h
  · rintro rfl
    have hm := fits_toInt m
    rw [Fits] at hm
    rw [if_pos hm, Int64.ofInt_toInt]

theorem ofInt?_eq_none_iff {n : Int} : ofInt? n = none ↔ ¬ Fits n := by
  rw [ofInt?]
  split
  · rename_i hn
    exact iff_of_false (Option.some_ne_none _) (not_not_intro hn)
  · rename_i hn
    exact iff_of_true rfl hn

theorem isSome_ofInt?_iff {n : Int} : (ofInt? n).isSome = true ↔ Fits n := by
  rw [← Option.ne_none_iff_isSome, ne_eq, ofInt?_eq_none_iff, not_not]

section Division

theorem floor_div_eq {l r q m : Int} (hr : r ≠ 0) (h : r * q + m = l)
    (hm : (0 ≤ m ∧ m < r) ∨ (r < m ∧ m ≤ 0)) : ⌊(l : ℚ) / (r : ℚ)⌋ = q := by
  have hr' : (r : ℚ) ≠ 0 := Int.cast_ne_zero.2 hr
  have hsplit : (l : ℚ) / r = q + (m : ℚ) / r := by
    rw [← h]
    push_cast
    field_simp
  have hpart : (m : ℚ) / r ∈ Set.Ico 0 1 := by
    rcases hm with ⟨hnonneg, hlt⟩ | ⟨hlt, hnonpos⟩
    · have hpos : (0 : ℚ) < r := Int.cast_pos.2 (by omega)
      exact ⟨div_nonneg (Int.cast_nonneg hnonneg) hpos.le,
        (div_lt_one hpos).2 (Int.cast_lt.2 hlt)⟩
    · have hneg : (r : ℚ) < 0 := Int.cast_lt_zero.2 (by omega)
      exact ⟨div_nonneg_of_nonpos (Int.cast_nonpos.2 hnonpos) hneg.le,
        (div_lt_one_of_neg hneg).2 (Int.cast_lt.2 hlt)⟩
  rw [hsplit, Int.floor_intCast_add, Int.floor_eq_zero_iff.2 hpart, Int.add_zero]

theorem tmod_bounds (l : Int) {r : Int} (hr : r ≠ 0) :
    (l.tmod r).natAbs < r.natAbs ∧ (0 ≤ l → 0 ≤ l.tmod r) ∧ (l ≤ 0 → l.tmod r ≤ 0) := by
  refine ⟨?_, fun hl => Int.tmod_nonneg r hl, fun hl => ?_⟩
  · rw [Int.natAbs_tmod]
    exact Nat.mod_lt _ (Int.natAbs_pos.2 hr)
  · have hneg := Int.tmod_nonneg r (Int.neg_nonneg.2 hl)
    rw [Int.neg_tmod] at hneg
    omega

variable {l r : Int64}

theorem toInt_ne_zero (hr : r ≠ 0) : r.toInt ≠ 0 := fun h => hr (Int64.toInt_inj.1 h)

theorem lt_zero_iff : l < 0 ↔ l.toInt < 0 := Int64.lt_iff_toInt_lt

/-- All quotients fit but one. -/
theorem fits_tdiv (hr : r ≠ 0) (h : ¬ (l = Int64.minValue ∧ r = -1)) :
    Fits (l.toInt.tdiv r.toInt) := by
  have hl := fits_iff.1 (fits_toInt l)
  have hr := toInt_ne_zero hr
  rw [fits_iff]
  by_cases hunit : r.toInt.natAbs = 1
  · rcases Int.natAbs_eq_iff.1 hunit with hone | hone
    · rw [hone, Int.natCast_one, Int.tdiv_one]
      exact hl
    · have hmin : l.toInt ≠ Int64.minValue.toInt :=
        fun hl => h ⟨Int64.toInt_inj.1 hl, Int64.toInt_inj.1 hone⟩
      rw [Int64.toInt_minValue] at hmin
      rw [hone, Int.natCast_one, Int.tdiv_neg, Int.tdiv_one]
      omega
  · have habs : (l.toInt.tdiv r.toInt).natAbs = l.toInt.natAbs / r.toInt.natAbs :=
      Int.natAbs_tdiv _ _
    have hhalf : l.toInt.natAbs / r.toInt.natAbs ≤ l.toInt.natAbs / 2 :=
      Nat.div_le_div_left (by omega) (by decide)
    omega

theorem quot?_eq (hr : r ≠ 0) : quot? l r = ofInt? (l.toInt.tdiv r.toInt) :=
  if_neg hr

theorem quot?_eq_none (hr : r ≠ 0) (h : quot? l r = none) : l = Int64.minValue ∧ r = -1 := by
  by_contra hother
  rw [quot?_eq hr] at h
  exact ofInt?_eq_none_iff.1 h (fits_tdiv hr hother)

theorem fits_tmod (hr : r ≠ 0) : Fits (l.toInt.tmod r.toInt) := by
  have hr' := fits_iff.1 (fits_toInt r)
  have hbounds := (tmod_bounds l.toInt (toInt_ne_zero hr)).1
  rw [fits_iff]
  omega

theorem exists_rem? (hr : r ≠ 0) {q : Int64} (hq : quot? l r = some q) :
    ∃ m, rem? l r = some m ∧ q.toInt = l.toInt.tdiv r.toInt ∧ m.toInt = l.toInt.tmod r.toInt := by
  obtain ⟨m, hm⟩ := Option.isSome_iff_exists.1 (isSome_ofInt?_iff.2 (fits_tmod (l := l) hr))
  refine ⟨m, ?_, ofInt?_eq_some_iff.1 ((quot?_eq hr).symm.trans hq), ofInt?_eq_some_iff.1 hm⟩
  rw [rem?, hq, Option.bind_some, hm]

theorem exists_quot? (hr : r ≠ 0) (h : ¬ (l = Int64.minValue ∧ r = -1)) :
    ∃ q, quot? l r = some q := by
  cases hq : quot? l r with
  | some q => exact ⟨q, rfl⟩
  | none => exact absurd (quot?_eq_none hr hq) h

/-- The quotient rounded toward zero is the floor, or one more if it leaves something with the sign
that the divisor does not have. -/
theorem floor_of_tdiv (l : Int) {r : Int} (hr : r ≠ 0) :
    ⌊(l : ℚ) / (r : ℚ)⌋ =
      if l.tmod r ≠ 0 ∧ ¬ (l < 0 ↔ r < 0) then l.tdiv r - 1 else l.tdiv r := by
  have hsplit := Int.mul_tdiv_add_tmod l r
  obtain ⟨habs, hnonneg, hnonpos⟩ := tmod_bounds l hr
  split
  · rename_i hup
    apply floor_div_eq hr (m := l.tmod r + r)
    · rw [Int.mul_sub]
      omega
    · omega
  · rename_i hdown
    apply floor_div_eq hr hsplit
    omega

theorem floorDiv?_eq (hr : r ≠ 0) :
    floorDiv? l r = ofInt? ⌊(l.toInt : ℚ) / (r.toInt : ℚ)⌋ := by
  rw [floor_of_tdiv l.toInt (toInt_ne_zero hr), floorDiv?]
  cases hq : quot? l r with
  | none =>
    -- What the machine cannot divide leaves nothing, so no correction brings it back.
    obtain ⟨rfl, rfl⟩ := quot?_eq_none hr hq
    rfl
  | some q =>
    obtain ⟨m, hm, hqvalue, hmvalue⟩ := exists_rem? hr hq
    have htest : m ≠ 0 ∧ ¬ (l < 0 ↔ r < 0) ↔
        l.toInt.tmod r.toInt ≠ 0 ∧ ¬ (l.toInt < 0 ↔ r.toInt < 0) := by
      rw [ne_eq, ← Int64.toInt_inj, hmvalue, lt_zero_iff, lt_zero_iff, Int64.toInt_zero]
    rw [hm, Option.bind_eq_bind, Option.bind_some, Option.bind_some]
    by_cases hup : l.toInt.tmod r.toInt ≠ 0 ∧ ¬ (l.toInt < 0 ↔ r.toInt < 0)
    · rw [if_pos hup, if_pos (htest.2 hup), sub?, hqvalue]
      rfl
    · rw [if_neg hup, if_neg (mt htest.1 hup), ofInt?_eq_some_iff.2 hqvalue]

theorem floorMod?_eq (hr : r ≠ 0) :
    floorMod? l r =
      ofInt? (l.toInt - r.toInt * ⌊(l.toInt : ℚ) / (r.toInt : ℚ)⌋) := by
  have hr' := toInt_ne_zero hr
  have hsplit := Int.mul_tdiv_add_tmod l.toInt r.toInt
  obtain ⟨habs, hnonneg, hnonpos⟩ := tmod_bounds l.toInt hr'
  rw [floor_of_tdiv l.toInt hr', floorMod?]
  by_cases hone : r = -1
  · subst hone
    have hone : (-1 : Int64).toInt = -1 := rfl
    rw [hone] at hsplit habs ⊢
    have hzero : l.toInt.tmod (-1) = 0 := by omega
    rw [if_pos rfl, hzero, if_neg fun h => h.1 rfl]
    have hdiff : l.toInt - -1 * l.toInt.tdiv (-1) = 0 := by omega
    rw [hdiff]
    rfl
  · obtain ⟨q, hq⟩ := exists_quot? hr fun h : l = Int64.minValue ∧ r = -1 => hone h.2
    obtain ⟨m, hm, _, hmvalue⟩ := exists_rem? hr hq
    have htest : m ≠ 0 ∧ ¬ (m < 0 ↔ r < 0) ↔
        l.toInt.tmod r.toInt ≠ 0 ∧ ¬ (l.toInt < 0 ↔ r.toInt < 0) := by
      rw [ne_eq, ← Int64.toInt_inj, lt_zero_iff, lt_zero_iff, hmvalue, Int64.toInt_zero]
      omega
    rw [if_neg hone, hm, Option.bind_eq_bind, Option.bind_some]
    by_cases hup : l.toInt.tmod r.toInt ≠ 0 ∧ ¬ (l.toInt < 0 ↔ r.toInt < 0)
    · rw [if_pos hup, if_pos (htest.2 hup), add?, hmvalue, Int.mul_sub]
      congr 1
      omega
    · rw [if_neg hup, if_neg (mt htest.1 hup)]
      symm
      rw [ofInt?_eq_some_iff, hmvalue]
      omega

/-- Once the quotient is known to fit, no step of the division leaves the range. -/
theorem isSome_floorDiv? (hr : r ≠ 0) (h : (quot? l r).isSome = true) :
    (floorDiv? l r).isSome = true := by
  have hr' := toInt_ne_zero hr
  rw [quot?_eq hr, isSome_ofInt?_iff] at h
  have hq := fits_iff.1 h
  have hsplit := Int.mul_tdiv_add_tmod l.toInt r.toInt
  obtain ⟨habs, hnonneg, hnonpos⟩ := tmod_bounds l.toInt hr'
  have hl := fits_iff.1 (fits_toInt l)
  rw [floorDiv?_eq hr, isSome_ofInt?_iff, floor_of_tdiv l.toInt hr', fits_iff]
  split
  · rename_i hup
    -- Something is left, so the quotient is nearer to zero than the dividend.
    have hleft : (l.toInt.tmod r.toInt).natAbs ≤ l.toInt.natAbs := by
      rw [Int.natAbs_tmod]
      exact Nat.mod_le _ _
    have hle : (l.toInt.tdiv r.toInt).natAbs ≤ (r.toInt * l.toInt.tdiv r.toInt).natAbs := by
      rw [Int.natAbs_mul]
      exact Nat.le_mul_of_pos_left _ (Int.natAbs_pos.2 hr')
    omega
  · exact hq

theorem isSome_floorMod? (hr : r ≠ 0) : (floorMod? l r).isSome = true := by
  have hr' := toInt_ne_zero hr
  have hsplit := Int.mul_tdiv_add_tmod l.toInt r.toInt
  obtain ⟨habs, hnonneg, hnonpos⟩ := tmod_bounds l.toInt hr'
  have hr'' := fits_iff.1 (fits_toInt r)
  rw [floorMod?_eq hr, isSome_ofInt?_iff, floor_of_tdiv l.toInt hr', fits_iff]
  split
  · rw [Int.mul_sub]
    omega
  · omega

end Division

section Power

/-- A product with a factor beyond the range fits only if the other one is 0, 1 or -1. -/
theorem not_fits_mul {x y : Int} (hx : ¬ Fits x) (hy : 1 < y.natAbs) : ¬ Fits (x * y) := by
  rw [fits_iff] at hx ⊢
  have habs : (x * y).natAbs = x.natAbs * y.natAbs := Int.natAbs_mul x y
  have hle : x.natAbs * 2 ≤ x.natAbs * y.natAbs := Nat.mul_le_mul_left _ hy
  omega

theorem fits_of_natAbs_le_one {x : Int} (h : x.natAbs ≤ 1) : Fits x := by
  rw [fits_iff]
  omega

theorem one_lt_natAbs_of_pow {x : Int} {k : Nat} (h : ¬ Fits (x ^ k)) : 1 < x.natAbs := by
  by_contra hle
  apply h
  apply fits_of_natAbs_le_one
  rw [Int.natAbs_pow]
  exact pow_le_one₀ (Nat.zero_le _) (by omega)

theorem not_fits_pow_add {x : Int} {j : Nat} (hx : ¬ Fits (x ^ j)) (k : Nat) :
    ¬ Fits (x ^ (j + k)) := by
  rw [pow_add]
  cases k with
  | zero =>
    rw [pow_zero, Int.mul_one]
    exact hx
  | succ k =>
    apply not_fits_mul hx
    rw [Int.natAbs_pow]
    exact Nat.one_lt_pow (Nat.succ_ne_zero k) (one_lt_natAbs_of_pow hx)

theorem pow?_eq (base : Int64) (k : Nat) : pow? base k = ofInt? (base.toInt ^ k) := by
  induction k using Nat.strong_induction_on generalizing base with
  | _ k ih =>
    rw [pow?]
    split
    · rename_i hzero
      rw [hzero, pow_zero]
      rfl
    split
    · rename_i hone
      rw [hone, pow_one, ofInt?_eq_some_iff.2 rfl]
    rename_i hzero hone
    have hmany : k = 2 * (k / 2) + k % 2 := (Nat.div_add_mod k 2).symm
    cases hsquare : mul? base base with
    | none =>
      rw [mul?, ofInt?_eq_none_iff, ← pow_two] at hsquare
      have hover := not_fits_pow_add hsquare (k - 2)
      rw [Nat.add_sub_cancel' (by omega)] at hover
      exact (ofInt?_eq_none_iff.2 hover).symm
    | some square =>
      have hvalue : square.toInt = base.toInt ^ 2 := by
        rw [ofInt?_eq_some_iff.1 hsquare, pow_two]
      rw [Option.bind_eq_bind, Option.bind_some, ih (k / 2) (by omega), hvalue, ← pow_mul]
      cases heven : ofInt? (base.toInt ^ (2 * (k / 2))) with
      | none =>
        have hover := not_fits_pow_add (ofInt?_eq_none_iff.1 heven) (k % 2)
        rw [← hmany] at hover
        exact (ofInt?_eq_none_iff.2 hover).symm
      | some even =>
        rw [Option.bind_some]
        split
        · rename_i hrest
          rw [hrest, Nat.add_zero] at hmany
          rw [hmany, heven]
        · have hrest : k % 2 = 1 := by omega
          rw [hrest] at hmany
          rw [mul?, ofInt?_eq_some_iff.1 heven, ← pow_succ, ← hmany]

theorem exists_rem?_two (n : Int64) : ∃ m, rem? n 2 = some m ∧ m.toInt = n.toInt.tmod 2 := by
  obtain ⟨q, hq⟩ := exists_quot? (l := n) (r := 2) (by decide) fun h => absurd h.2 (by decide)
  obtain ⟨m, hm, _, hvalue⟩ := exists_rem? (by decide) hq
  exact ⟨m, hm, hvalue⟩

theorem not_fits_pow_of_le {x : Int} {k : Nat} (hx : 1 < x.natAbs) (hk : 64 ≤ k) :
    ¬ Fits (x ^ k) := by
  have hlow : 2 ^ 64 ≤ (x ^ k).natAbs := by
    rw [Int.natAbs_pow]
    calc 2 ^ 64 ≤ 2 ^ k := Nat.pow_le_pow_right (by decide) hk
      _ ≤ x.natAbs ^ k := Nat.pow_le_pow_left hx k
  rw [fits_iff]
  omega

theorem power?_eq {base exponent : Int64} {k : Nat} (hk : exponent.toInt = k) :
    power? base exponent = ofInt? (base.toInt ^ k) := by
  have hpos : 0 < exponent ↔ 0 < k := by
    rw [Int64.lt_iff_toInt_lt, hk, Int64.toInt_zero, Int.natCast_pos]
  rw [power?]
  split
  · rename_i hbase
    have hk := (hpos.1 hbase.2).ne'
    obtain rfl | rfl := hbase.1
    · rw [Int64.toInt_zero, zero_pow hk]
      rfl
    · rw [Int64.toInt_one, one_pow]
      rfl
  rename_i hsmall
  split
  · rename_i hbase
    obtain ⟨m, hm, hvalue⟩ := exists_rem?_two exponent
    have hparity : m = 0 ↔ Even k := by
      rw [← Int64.toInt_inj, hvalue, hk, Int64.toInt_zero, Int.tmod_eq_emod_of_nonneg (by omega),
        Nat.even_iff]
      omega
    have hminus : (-1 : Int64).toInt = -1 := rfl
    rw [hm, Option.bind_eq_bind, Option.bind_some, hbase, hminus, neg_one_pow_eq_ite]
    by_cases heven : Even k
    · rw [if_pos heven, if_pos (hparity.2 heven)]
      rfl
    · rw [if_neg heven, if_neg (mt hparity.1 heven)]
      rfl
  rename_i hminus
  split
  · rw [hk, Int.toNat_natCast]
    exact pow?_eq base k
  · rename_i hlarge
    have hk : 4294967296 ≤ k := by
      rw [hk] at hlarge
      exact Int.ofNat_le.1 (Int.not_lt.1 hlarge)
    have hzero : base.toInt ≠ 0 :=
      fun h => hsmall ⟨.inl (Int64.toInt_inj.1 h), hpos.2 (by omega)⟩
    have hone : base.toInt ≠ 1 :=
      fun h => hsmall ⟨.inr (Int64.toInt_inj.1 h), hpos.2 (by omega)⟩
    have hminus : base.toInt ≠ -1 := fun h => hminus (Int64.toInt_inj.1 h)
    symm
    apply ofInt?_eq_none_iff.2
    exact not_fits_pow_of_le (by omega) (by omega)

end Power

end Arithmetic

namespace BinaryOp

open Arithmetic

def arithmetic : List BinaryOp := [add, sub, mul, div, mod, pow]

/-- What an operation answers: the fault of operands that have no result, or else the result if it
fits. -/
inductive Computes (op : BinaryOp) (l r : Int64) : Except RuntimeFault Int64 → Prop
  | divisionByZero (hop : op = .div ∨ op = .mod) (hr : r = 0) :
    Computes op l r (.error .divisionByZero)
  | negativeExponent (hop : op = .pow) (hr : r < 0) :
    Computes op l r (.error (.negativeExponent r))
  | exact {n : Int} (h : op.Exact l.toInt r.toInt n) : Computes op l r (fit op (ofInt? n))

theorem computes_div (l r : Int64) : Computes .div l r (Arithmetic.div l r) := by
  rw [Arithmetic.div]
  split
  · rename_i hr
    exact .divisionByZero (.inl rfl) hr
  · rename_i hr
    rw [floorDiv?_eq hr]
    exact .exact (.div _ (toInt_ne_zero hr))

theorem computes_mod (l r : Int64) : Computes .mod l r (Arithmetic.mod l r) := by
  rw [Arithmetic.mod]
  split
  · rename_i hr
    exact .divisionByZero (.inr rfl) hr
  · rename_i hr
    rw [floorMod?_eq hr]
    exact .exact (.mod _ (toInt_ne_zero hr))

theorem computes_pow (l r : Int64) : Computes .pow l r (Arithmetic.pow l r) := by
  rw [Arithmetic.pow]
  split
  · rename_i hr
    exact .negativeExponent rfl hr
  · rename_i hr
    rw [lt_zero_iff, Int.not_lt] at hr
    obtain ⟨k, hk⟩ := Int.eq_ofNat_of_zero_le hr
    rw [power?_eq hk]
    apply Computes.exact
    rw [hk]
    exact .pow l.toInt k

namespace Computes

variable {op : BinaryOp} {l r : Int64} {result : Except RuntimeFault Int64}

theorem fit_ofInt?_eq_ok_iff {n : Int} {m : Int64} :
    fit op (ofInt? n) = .ok m ↔ m.toInt = n := by
  rw [← ofInt?_eq_some_iff]
  cases ofInt? n <;> simp [fit]

theorem fit_ofInt?_eq_error_iff {n : Int} {fault : RuntimeFault} :
    fit op (ofInt? n) = .error fault ↔ ¬ Fits n ∧ fault = .overflow op.symbol := by
  rw [← ofInt?_eq_none_iff]
  cases ofInt? n <;> simp [fit, eq_comm]

theorem ok_iff (h : Computes op l r result) (m : Int64) :
    result = .ok m ↔ op.Exact l.toInt r.toInt m.toInt := by
  cases h with
  | divisionByZero hop hr =>
    refine iff_of_false (fun h => by cases h) fun h => ?_
    exact h.ne_zero hop (hr ▸ Int64.toInt_zero)
  | negativeExponent hop hr =>
    refine iff_of_false (fun h => by cases h) fun h => ?_
    exact absurd (lt_zero_iff.1 hr) (Int.not_lt.2 (h.nonneg hop))
  | exact h =>
    rw [fit_ofInt?_eq_ok_iff]
    constructor
    · rintro rfl
      exact h
    · exact fun h' => h'.unique h

theorem divisionByZero_iff (h : Computes op l r result) :
    result = .error .divisionByZero ↔ (op = .div ∨ op = .mod) ∧ r = 0 := by
  cases h with
  | divisionByZero hop hr => exact iff_of_true rfl ⟨hop, hr⟩
  | negativeExponent hop hr =>
    subst hop
    refine iff_of_false (fun h => by cases h) ?_
    rintro ⟨hop | hop, _⟩ <;> cases hop
  | exact h =>
    rw [fit_ofInt?_eq_error_iff]
    refine iff_of_false (fun h => by cases h.2) ?_
    rintro ⟨hop, rfl⟩
    exact h.ne_zero hop Int64.toInt_zero

theorem negativeExponent_iff (h : Computes op l r result) (e : Int64) :
    result = .error (.negativeExponent e) ↔ op = .pow ∧ r < 0 ∧ e = r := by
  cases h with
  | divisionByZero hop hr =>
    refine iff_of_false (fun h => by cases h) ?_
    rintro ⟨rfl, _⟩
    rcases hop with hop | hop <;> cases hop
  | negativeExponent hop hr =>
    constructor
    · rintro ⟨⟩
      exact ⟨hop, hr, rfl⟩
    · rintro ⟨_, _, rfl⟩
      rfl
  | exact h =>
    rw [fit_ofInt?_eq_error_iff]
    refine iff_of_false (fun h => by cases h.2) ?_
    rintro ⟨hop, hr, _⟩
    exact absurd (lt_zero_iff.1 hr) (Int.not_lt.2 (h.nonneg hop))

theorem overflow_iff (h : Computes op l r result) :
    result = .error (.overflow op.symbol) ↔
      ¬ (∃ n, op.Exact l.toInt r.toInt n ∧ Fits n) ∧
        ¬ ((op = .div ∨ op = .mod) ∧ r = 0) ∧ ¬ (op = .pow ∧ r < 0) := by
  cases h with
  | divisionByZero hop hr => exact iff_of_false (fun h => by cases h) fun h => h.2.1 ⟨hop, hr⟩
  | negativeExponent hop hr => exact iff_of_false (fun h => by cases h) fun h => h.2.2 ⟨hop, hr⟩
  | @exact n h =>
    rw [fit_ofInt?_eq_error_iff]
    constructor
    · rintro ⟨hn, _⟩
      refine ⟨?_, ?_, ?_⟩
      · rintro ⟨n', h', hn'⟩
        exact hn (h.unique h' ▸ hn')
      · rintro ⟨hop, rfl⟩
        exact h.ne_zero hop Int64.toInt_zero
      · rintro ⟨hop, hr⟩
        exact absurd (lt_zero_iff.1 hr) (Int.not_lt.2 (h.nonneg hop))
    · exact fun ⟨hn, _⟩ => ⟨fun hfits => hn ⟨n, h, hfits⟩, rfl⟩

end Computes

theorem exists_computes {op : BinaryOp} (hop : op ∈ arithmetic) (l r : Int64) :
    ∃ result, Computes op l r result ∧
      op.apply (.int l) (.int r) = result.map Value.int := by
  have happly {f : Int64 → Int64 → Except RuntimeFault Int64} (hf : op.meaning = .arithmetic f) :
      op.apply (.int l) (.int r) = (f l r).map Value.int := by
    rw [apply, hf]
    rfl
  simp only [arithmetic, List.mem_cons, List.not_mem_nil, or_false] at hop
  obtain rfl | rfl | rfl | rfl | rfl | rfl := hop
  · exact ⟨_, .exact (.add _ _), happly rfl⟩
  · exact ⟨_, .exact (.sub _ _), happly rfl⟩
  · exact ⟨_, .exact (.mul _ _), happly rfl⟩
  · exact ⟨_, computes_div l r, happly rfl⟩
  · exact ⟨_, computes_mod l r, happly rfl⟩
  · exact ⟨_, computes_pow l r, happly rfl⟩

/-- An operation on integers answers its result exactly when there is one that fits. Where there is
none the fault says why, and where there is one that does not fit it is an overflow. After the one
check of the quotient no step of a division leaves the range, and neither do the steps of a
remainder or the parity of an exponent. -/
theorem apply_arithmetic {op : BinaryOp} (hop : op ∈ arithmetic) (l r : Int64) :
    (∀ v, op.apply (.int l) (.int r) = .ok v ↔
      ∃ m : Int64, op.Exact l.toInt r.toInt m.toInt ∧ v = .int m) ∧
    ((∃ v, op.apply (.int l) (.int r) = .ok v) ↔
      ∃ n, op.Exact l.toInt r.toInt n ∧ Fits n) ∧
    (op.apply (.int l) (.int r) = .error .divisionByZero ↔ (op = .div ∨ op = .mod) ∧ r = 0) ∧
    (∀ e, op.apply (.int l) (.int r) = .error (.negativeExponent e) ↔
      op = .pow ∧ r < 0 ∧ e = r) ∧
    (op.apply (.int l) (.int r) = .error (.overflow op.symbol) ↔
      ¬ (∃ n, op.Exact l.toInt r.toInt n ∧ Fits n) ∧
        ¬ ((op = .div ∨ op = .mod) ∧ r = 0) ∧ ¬ (op = .pow ∧ r < 0)) ∧
    (r ≠ 0 → ((quot? l r).isSome = true → (floorDiv? l r).isSome = true) ∧
      (floorMod? l r).isSome = true) ∧
    (rem? r 2).isSome = true := by
  obtain ⟨result, hresult, happly⟩ := exists_computes hop l r
  have hok (v : Value) : op.apply (.int l) (.int r) = .ok v ↔
      ∃ m : Int64, op.Exact l.toInt r.toInt m.toInt ∧ v = .int m := by
    rw [happly]
    simp only [← hresult.ok_iff]
    cases result <;> simp [Except.map, eq_comm]
  have herror (fault : RuntimeFault) :
      op.apply (.int l) (.int r) = .error fault ↔ result = .error fault := by
    rw [happly]
    cases result <;> simp [Except.map]
  refine ⟨hok, ?_, ?_, fun e => ?_, ?_, fun hr => ⟨isSome_floorDiv? hr, isSome_floorMod? hr⟩, ?_⟩
  · constructor
    · rintro ⟨v, hv⟩
      obtain ⟨m, hm, _⟩ := (hok v).1 hv
      exact ⟨m.toInt, hm, fits_toInt m⟩
    · rintro ⟨n, hn, hfits⟩
      obtain ⟨m, hm⟩ := Option.isSome_iff_exists.1 (isSome_ofInt?_iff.2 hfits)
      rw [← ofInt?_eq_some_iff.1 hm] at hn
      exact ⟨.int m, (hok _).2 ⟨m, hn, rfl⟩⟩
  · rw [herror, hresult.divisionByZero_iff]
  · rw [herror, hresult.negativeExponent_iff]
  · rw [herror, hresult.overflow_iff]
  · obtain ⟨m, hm, _⟩ := exists_rem?_two r
    rw [hm]
    rfl

/-- A quotient that rounding brings down, the one quotient that does not fit, and a power whose
exponent has more than 32 bits. -/
theorem apply_arithmetic_extremes :
    div ∈ arithmetic ∧ pow ∈ arithmetic ∧
      div.apply (.int (-7)) (.int 2) = .ok (.int (-4)) ∧
      div.apply (.int Int64.minValue) (.int (-1)) = .error (.overflow "/") ∧
      pow.apply (.int (-1)) (.int Int64.maxValue) = .ok (.int (-1)) := by
  have hdiv : div ∈ arithmetic := by decide
  have hpow : pow ∈ arithmetic := by decide
  have hquotient {l r q m : Int} (hr : r ≠ 0) (h : r * q + m = l)
      (hm : (0 ≤ m ∧ m < r) ∨ (r < m ∧ m ≤ 0)) : div.Exact l r q := by
    have hexact := Exact.div l hr
    rwa [floor_div_eq hr h hm] at hexact
  have hodd {k : Nat} (hk : Odd k) : pow.Exact (-1) k (-1) := by
    have hexact := Exact.pow (-1) k
    rwa [hk.neg_one_pow] at hexact
  refine ⟨hdiv, hpow, ?_, ?_, ?_⟩
  · apply ((apply_arithmetic hdiv (-7) 2).1 _).2
    exact ⟨-4, hquotient (m := 1) (by decide) rfl (by decide), rfl⟩
  · apply (apply_arithmetic hdiv Int64.minValue (-1)).2.2.2.2.1.2
    refine ⟨?_, by decide, by decide⟩
    rintro ⟨n, hn, hfits⟩
    have hvalue : n = 9223372036854775808 :=
      hn.unique (hquotient (m := 0) (by decide) rfl (by decide))
    rw [hvalue] at hfits
    exact absurd hfits.2 (by decide)
  · apply ((apply_arithmetic hpow (-1) Int64.maxValue).1 _).2
    exact ⟨-1, hodd (k := 9223372036854775807) (by decide), rfl⟩

end BinaryOp

end ExprLang
