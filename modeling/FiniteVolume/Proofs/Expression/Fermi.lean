import FiniteVolume.Expression.Special
import FiniteVolume.Proofs.Numeric.Real

/-!
The Fermi integral is positive.

Its Newton iteration stays on positive numbers, because a step that would leave them is halved until it does
not. Over the real numbers the halving ends whatever the step is: from a positive number no step leads
further than some power of two times that number (`Special.halved_halveStep`). Positivity is what each step
preserves, and the starting guess has it (`Special.fermi_positive`).
-/
namespace FiniteVolume.Special

open Scalar

/-! ## The iteration -/

section

variable {β α : Type} [BaseScalar β] [Scalar α] [Precision β α] {eta r step last other : α}

def newtonStep (eta r : α) : α := -(invFermi r - eta) / invFermiDx r

/-- A run of the loop that halves a step for as long as it takes `r` to zero or below, from a step to the one
that the loop leaves. Nothing counts the halvings: a loop that does not end has no run. -/
inductive Halved (r : α) : α → α → Prop
  | stays {step : α} : le (step + r) 0 = false → Halved r step step
  | crosses {step last : α} :
    le (step + r) 0 = true → Halved r (step * lit (0.5 : β)) last → Halved r step last

theorem Halved.unique (run : Halved r step last) (again : Halved r step other) : other = last := by
  induction run with
  | stays stays =>
    cases again with
    | stays => rfl
    | crosses crosses => rw [stays] at crosses; cases crosses
  | crosses crosses _ ih =>
    cases again with
    | stays stays => rw [stays] at crosses; cases crosses
    | crosses _ again => exact ih again

/-- The numbers that the iteration goes through from `r` on, its result included. -/
def fermiIterates (eta : α) : (iterations : Nat) → (r : α) → List α
  | 0, r => [r]
  | iterations + 1, r =>
    let update := fermiStep eta r
    let next := r + update
    r :: if le (abs update / (abs next + fermiTolerance)) fermiTolerance then [next]
      else fermiIterates eta iterations next

/-- All numbers of the iteration, from the starting guess to the Fermi integral. -/
def fermiRun (eta : α) : List α := fermiIterates eta fermiIterations (fermiGuess eta)

theorem length_fermiIterates_le (eta : α) (iterations : Nat) (r : α) :
    (fermiIterates eta iterations r).length ≤ iterations + 1 := by
  induction iterations generalizing r with
  | zero => exact le_rfl
  | succ iterations ih =>
    rw [fermiIterates, List.length_cons]
    split
    · simp
    · exact Nat.succ_le_succ (ih _)

theorem getLast?_fermiIterates (eta : α) (iterations : Nat) (r : α) :
    (fermiIterates eta iterations r).getLast? = some (fermiFrom eta iterations r) := by
  induction iterations generalizing r with
  | zero => rfl
  | succ iterations ih =>
    simp only [fermiIterates, fermiFrom]
    split
    · rfl
    · rw [List.getLast?_cons, ih, Option.getD_some]

theorem of_mem_fermiIterates {property : α → Prop}
    (preserved : ∀ r, property r → property (r + fermiStep eta r)) {iterations : Nat}
    (initial : property r) : ∀ s ∈ fermiIterates eta iterations r, property s := by
  induction iterations generalizing r with
  | zero => simpa [fermiIterates] using initial
  | succ iterations ih =>
    have next := preserved r initial
    rw [fermiIterates]
    refine List.forall_mem_cons.mpr ⟨initial, ?_⟩
    split
    · simpa using next
    · exact ih next

end

/-! ## Constants and halvings of real numbers -/

section

variable {r : ℝ}

theorem ofDecimal_pos {coefficient : Nat} (pos : 0 < coefficient) (exponent : Nat) :
    0 < (BaseScalar.ofDecimal coefficient true exponent : ℝ) :=
  div_pos (Nat.cast_pos.mpr pos) (pow_pos (by norm_num) exponent)

theorem pi_pos : 0 < (pi : ℝ) := ofDecimal_pos (by decide) 15

theorem fermiShift_pos : 0 < (fermiShift : ℝ) :=
  div_pos (mul_pos pi_pos pi_pos) (ofDecimal_pos (by decide) 1)

theorem fermiScale_pos : 0 < (fermiScale : ℝ) :=
  mul_pos (ofDecimal_pos (by decide) 2) (Real.sqrt_pos.mpr pi_pos)

theorem abs_lt_pow_halvings (pos : 0 < r) (step : ℝ) : |step| < r * 2 ^ halvings step r := by
  have count : |step| / r < halvings step r := by
    change |step| / r < ((⌊|step| / r⌋₊ + 1 : ℕ) : ℝ)
    exact_mod_cast Nat.lt_floor_add_one (|step| / r)
  have power : (halvings step r : ℝ) < 2 ^ halvings step r := by
    exact_mod_cast Nat.lt_two_pow_self
  calc |step| = r * (|step| / r) := (mul_div_cancel₀ _ pos.ne').symm
    _ < r * 2 ^ halvings step r := mul_lt_mul_of_pos_left (count.trans power) pos

end

/-! ## Positive numbers -/

section

-- A working precision of any kind: only the tolerance depends on it.
variable [Precision ℝ ℝ] {r step last : ℝ}

theorem Halved.pos (run : Halved r step last) : 0 < r + last := by
  induction run with
  | stays stays =>
    rw [add_comm]
    exact not_le.mp (of_decide_eq_false stays)
  | crosses _ _ ih => exact ih

variable (exact : ∀ v : ℝ, (Precision.narrow v : ℝ) = v)
include exact

theorem fermiGuess_pos (eta : ℝ) : 0 < (fermiGuess eta : ℝ) := by
  rw [fermiGuess]
  split
  · exact Real.exp_pos eta
  · simp only [lit, exact]
    refine div_pos (Real.rpow_pos_of_pos ?_ _) fermiScale_pos
    exact add_pos_of_nonneg_of_pos (mul_self_nonneg _) fermiShift_pos

/-- The loop ends within as many halvings as bring the step below `r`. -/
theorem halved_halveStep {times : Nat} (near : |step| < r * 2 ^ times) :
    Halved r step (halveStep r times step) := by
  induction times generalizing step with
  | zero =>
    have above : -r < step := neg_lt_of_abs_lt (by simpa using near)
    exact .stays (decide_eq_false (by linarith))
  | succ times ih =>
    rw [halveStep]
    split
    case isTrue crosses =>
      refine .crosses crosses (ih ?_)
      have half : (lit (BaseScalar.ofDecimal 5 true 1 : ℝ) : ℝ) = 1 / 2 := by
        rw [lit, exact]
        norm_num [BaseScalar.ofDecimal]
      change |step * lit (BaseScalar.ofDecimal 5 true 1 : ℝ)| < _
      rw [half, abs_mul, abs_of_pos (one_half_pos : (0 : ℝ) < 1 / 2)]
      rw [pow_succ] at near
      linarith
    case isFalse stays => exact .stays (Bool.eq_false_iff.mpr stays)

/-- From a positive number the loop ends, and the iteration takes the step that it leaves. -/
theorem halved_fermiStep (pos : 0 < r) (eta : ℝ) : Halved r (newtonStep eta r) (fermiStep eta r) :=
  halved_halveStep exact (abs_lt_pow_halvings pos _)

/-- In real arithmetic the Fermi integral is found, and positive, for every argument. The starting guess is
positive. From a positive number the loop that halves a step ends, in one way, whatever the step is, and the
step that it leaves leads to a positive number. So every Newton step, of which there are at most
`fermiIterations`, starts at a positive number and is the one that the loop leaves; the result is the last
of these numbers. -/
theorem fermi_positive (eta : ℝ) :
    0 < (fermiGuess eta : ℝ) ∧
    (∀ r step : ℝ, 0 < r → ∃! last, Halved r step last) ∧
    (∀ r step last : ℝ, Halved r step last → 0 < r + last) ∧
    (∀ r ∈ (fermiRun eta : List ℝ), 0 < r ∧ Halved r (newtonStep eta r) (fermiStep eta r)) ∧
    (fermiRun eta : List ℝ).length ≤ fermiIterations + 1 ∧
    (fermiRun eta).getLast? = some (fermi eta : ℝ) ∧ 0 < (fermi eta : ℝ) := by
  have positive : ∀ r ∈ (fermiRun eta : List ℝ), 0 < r :=
    of_mem_fermiIterates (fun r pos => (halved_fermiStep exact pos eta).pos) (fermiGuess_pos exact eta)
  have result : (fermiRun eta).getLast? = some (fermi eta : ℝ) := getLast?_fermiIterates eta _ _
  refine ⟨fermiGuess_pos exact eta, fun r step pos => ?_, fun r step last run => run.pos,
    fun r member => ⟨positive r member, halved_fermiStep exact (positive r member) eta⟩,
    length_fermiIterates_le eta _ _, result, positive _ (List.mem_of_getLast? result)⟩
  exact ⟨_, halved_halveStep exact (abs_lt_pow_halvings pos step), fun other again =>
    (halved_halveStep exact (abs_lt_pow_halvings pos step)).unique again⟩

end

/-- At minus one; and from one a step of minus three, which has to be halved. -/
theorem fermi_positive_at_minus_one : (∀ v : ℝ, (Precision.narrow v : ℝ) = v) ∧
    (∃! last : ℝ, Halved 1 (-3) last) ∧ 0 < (fermi (-1) : ℝ) := by
  have exact : ∀ v : ℝ, (Precision.narrow v : ℝ) = v := fun _ => rfl
  obtain ⟨-, ends, -, -, -, -, positive⟩ := fermi_positive exact (-1)
  exact ⟨exact, ends 1 (-3) one_pos, positive⟩

end FiniteVolume.Special
