import PretIss.Model.Execute

/-! A negative word is shifted right logically in a loop, one place a turn, and any other
word in one step. Both are the shift of the unsigned word. -/

namespace PretIss

namespace Execute

variable {id : ThreadId}

/-- The loop of the logical shift, from the count and the result it starts with to the
result it leaves. The test that ends it lowers the count once more. -/
inductive ShiftLoop : BitVec 16 → Word → Word → Prop
  | stop {result : Word} : ShiftLoop 0 result result
  | turn {shiftAmount : BitVec 16} {result final : Word} :
      shiftAmount ≠ 0 → ShiftLoop (shiftAmount - 1) (shiftNegative result) final →
        ShiftLoop shiftAmount result final

theorem ShiftLoop.iff_iterate {shiftAmount : BitVec 16} {result final : Word} :
    ShiftLoop shiftAmount result final ↔ final = shiftNegative^[shiftAmount.toNat] result := by
  obtain ⟨n, count⟩ : ∃ n, shiftAmount.toNat = n := ⟨_, rfl⟩
  induction n generalizing shiftAmount result with
  | zero =>
    have last : shiftAmount = 0 := BitVec.eq_of_toNat_eq count
    subst last
    constructor
    · rintro (_ | ⟨goes, _⟩)
      · rfl
      · exact absurd rfl goes
    · rintro rfl
      exact .stop
  | succ n ih =>
    have goes : shiftAmount ≠ 0 := by
      rintro rfl
      cases count
    have less : (shiftAmount - 1).toNat = n := by
      rw [BitVec.toNat_sub_of_le (by rw [BitVec.le_def, count]; simp), count]
      rfl
    rw [count, Function.iterate_succ_apply, ← less, ← ih less]
    constructor
    · rintro (_ | ⟨_, rest⟩)
      · exact absurd rfl goes
      · exact rest
    · exact .turn goes

theorem shiftNegative_eq (result : Word) : shiftNegative result = result >>> 1 := by
  apply BitVec.eq_of_getLsbD_eq
  intro i bound
  have mask : (0x7FFFFFFF : Word).getLsbD i = decide (i < 31) := by
    revert i
    decide
  rw [shiftNegative, BitVec.getLsbD_and, BitVec.getLsbD_sshiftRight, BitVec.getLsbD_ushiftRight,
    mask]
  by_cases top : i < 31
  · simp [top, Nat.not_le.mpr bound, show 1 + i < 32 by omega]
  · simp [show i = 31 by omega]

theorem shiftNegative_iterate (n : Nat) (result : Word) :
    shiftNegative^[n] result = result >>> n := by
  induction n generalizing result with
  | zero => rfl
  | succ n ih =>
    rw [Function.iterate_succ_apply, ih, shiftNegative_eq, Nat.add_comm, BitVec.shiftRight_add]

theorem shiftAmount_eq (op2 : Word) : (op2 &&& 0x1F).toNat = op2.toNat % 32 :=
  (BitVec.toNat_and op2 0x1F).trans (Nat.and_two_pow_sub_one_eq_mod op2.toNat 5)

theorem shiftRightLogical_eq (op1 op2 : Word) :
    shiftRightLogical op1 op2 = op1 >>> (op2.toNat % 32) := by
  rw [shiftRightLogical, shiftAmount_eq]
  split
  · exact shiftNegative_iterate _ _
  · rename_i sign
    apply BitVec.sshiftRight_eq_of_msb_false
    have masked : op1 &&& BitVec.twoPow 32 31 = 0 := not_not.mp sign
    rw [BitVec.and_twoPow] at masked
    rw [BitVec.msb_eq_getLsbD_last]
    by_contra set
    rw [if_pos (by simpa using set)] at masked
    exact absurd masked (by decide)

def operated (ht : HwThread id) (op3 : Op3Arithmetic) (op1 op2 : Word) : HwThread id :=
  { ht with
    inst := { ht.inst.decodeArithmetic (some op3) with op1Value := op1, op2Value := op2 } }

/-- The result of an operation on two operands. -/
def shifted (ht : HwThread id) (op3 : Op3Arithmetic) (op1 op2 : Word) : Word :=
  (performAluOperations (operated ht op3 op1 op2)).inst.aluResult

theorem aluResult_performAluOperations (ht : HwThread id) (plain : ht.inst.aluop ≠ .mul) :
    (performAluOperations ht).inst.aluResult = aluValue ht := by
  simp only [performAluOperations, if_neg plain]
  split <;> rfl

theorem shifted_srl (ht : HwThread id) (op1 op2 : Word) :
    shifted ht .srl op1 op2 = op1 >>> (op2.toNat % 32) := by
  rw [← shiftRightLogical_eq]
  exact aluResult_performAluOperations (operated ht .srl op1 op2) nofun

theorem shifted_sll (ht : HwThread id) (op1 op2 : Word) :
    shifted ht .sll op1 op2 = op1 <<< (op2.toNat % 32) := by
  rw [← shiftAmount_eq]
  exact aluResult_performAluOperations (operated ht .sll op1 op2) nofun

theorem shifted_sra (ht : HwThread id) (op1 op2 : Word) :
    shifted ht .sra op1 op2 = op1.sshiftRight (op2.toNat % 32) := by
  rw [← shiftAmount_eq]
  exact aluResult_performAluOperations (operated ht .sra op1 op2) nofun

/-- The three shifts are a quotient of the unsigned word, a product modulo the word size
and a quotient of the signed word rounded down. The loop of the logical shift ends from
every word, and only with that result. -/
theorem shifted_eq (ht : HwThread id) (op1 op2 : Word) :
    (∀ final, ShiftLoop ((op2 &&& 0x1F).setWidth 16) op1 final ↔
        final = shifted ht .srl op1 op2) ∧
      (shifted ht .srl op1 op2).toNat = op1.toNat / 2 ^ (op2.toNat % 32) ∧
      (shifted ht .sll op1 op2).toNat = op1.toNat * 2 ^ (op2.toNat % 32) % 2 ^ 32 ∧
      (shifted ht .sra op1 op2).toInt = op1.toInt.fdiv (2 ^ (op2.toNat % 32)) := by
  have fits : ((op2 &&& 0x1F).setWidth 16).toNat = op2.toNat % 32 := by
    rw [BitVec.toNat_setWidth, shiftAmount_eq]
    omega
  refine ⟨fun final => ?_, ?_, ?_, ?_⟩
  · rw [ShiftLoop.iff_iterate, fits, shiftNegative_iterate, shifted_srl]
  · rw [shifted_srl, BitVec.toNat_ushiftRight, Nat.shiftRight_eq_div_pow]
  · rw [shifted_sll, BitVec.toNat_shiftLeft, Nat.shiftLeft_eq]
  · rw [shifted_sra, BitVec.toInt_sshiftRight, Int.shiftRight_eq_div_pow,
      Int.fdiv_eq_ediv_of_nonneg _ (Int.pow_nonneg (by decide)), Int.natCast_pow]
    rfl

end Execute

end PretIss
