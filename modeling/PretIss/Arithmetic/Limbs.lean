import PretIss.Arithmetic.Compare
import PretIss.Library.Limbs

/-! Arithmetic on numbers of several words: the first instruction starts a chain, and
each later one takes the carry that the one before it has left in the condition codes. -/

namespace PretIss

variable {id : ThreadId} {σ : Type}

namespace Pass

/-- Instructions that work on the words of two numbers in turn. Whatever else the thread
does between two of them, it leaves the condition codes alone. -/
structure Chain (p : Nat → Pass id σ) (n : Nat) (first later : Op3Arithmetic) : Prop where
  first : 0 < n → (p 0).Executes first
  later : ∀ k, 0 < k → k < n → (p k).Executes later
  icc : ∀ k, k + 1 < n → (p (k + 1)).start.specRegs.icc = (p k).finished.specRegs.icc

/-- The results are in the registers that the instructions name. -/
def Delivers (p : Nat → Pass id σ) (n : Nat) : Prop :=
  ∀ k, k < n → (Sparc.fields (p k).word).rd ≠ 0 →
    (p k).finished.readReg (p k).destination = (p k).result

def carryInto (p : Nat → Pass id σ) : Nat → Bool
  | 0 => false
  | k + 1 => (p k).finished.specRegs.icc.getLsbD 0

variable {p : Nat → Pass id σ} {n : Nat} {first later : Op3Arithmetic}

theorem Chain.carryIn_eq (chain : Chain p n first later) (starts : first.extended = false)
    (continues : later.extended = true) {k : Nat} (bound : k < n) :
    ∃ op3, (op3 = first ∨ op3 = later) ∧ (p k).Executes op3 ∧
      (p k).carryIn op3 = carryInto p k := by
  cases k with
  | zero =>
      refine ⟨first, Or.inl rfl, chain.first bound, ?_⟩
      simp [carryIn, starts, carryInto]
  | succ k =>
      refine ⟨later, Or.inr rfl, chain.later (k + 1) (Nat.succ_pos k) bound, ?_⟩
      simp [carryIn, continues, carryInto, chain.icc k bound]

theorem Chain.value_sources (chain : Chain p n first later) (starts : first.setsFlags = true)
    (continues : later.setsFlags = true)
    (whole : ∀ k, k < n → (p k).start.dbWordStalled = false) :
    Limbs.value (fun k => (p k).operand1) n = Limbs.value (fun k => (p k).source1) n ∧
      Limbs.value (fun k => (p k).operand2) n = Limbs.value (fun k => (p k).source2) n ∧
      ∀ k, k < n → (p k).destination = (Sparc.fields (p k).word).rd := by
  have operands : ∀ k, k < n → (p k).operand1 = (p k).source1 ∧ (p k).operand2 = (p k).source2 ∧
      (p k).destination = (Sparc.fields (p k).word).rd := by
    intro k bound
    cases k with
    | zero => exact (chain.first bound).operands starts (whole 0 bound)
    | succ k =>
        exact (chain.later (k + 1) (Nat.succ_pos k) bound).operands continues (whole (k + 1) bound)
  exact ⟨Limbs.value_congr fun k bound => (operands k bound).1,
    Limbs.value_congr fun k bound => (operands k bound).2.1,
    fun k bound => (operands k bound).2.2⟩

theorem carryInto_last (some : 1 ≤ n) :
    carryInto p n = (p (n - 1)).finished.specRegs.icc.getLsbD 0 := by
  obtain ⟨m, rfl⟩ : ∃ m, n = m + 1 := ⟨n - 1, by omega⟩
  rfl

/-- The words add up to the sum of the numbers, and the carry is that of the whole. -/
structure Adds (p : Nat → Pass id σ) (n : Nat) : Prop where
  sum : Limbs.value (fun k => (p k).result) n =
    (Limbs.value (fun k => (p k).operand1) n + Limbs.value (fun k => (p k).operand2) n) %
      2 ^ (32 * n)
  carry : (p (n - 1)).finished.specRegs.icc.getLsbD 0 = true ↔
    2 ^ (32 * n) ≤
      Limbs.value (fun k => (p k).operand1) n + Limbs.value (fun k => (p k).operand2) n
  delivers : Delivers p n

/-- The words make the difference of the numbers, and the borrow is that of the whole. -/
structure Subtracts (p : Nat → Pass id σ) (n : Nat) : Prop where
  difference : (Limbs.value (fun k => (p k).result) n : Int) =
    ((Limbs.value (fun k => (p k).operand1) n : Int) -
      Limbs.value (fun k => (p k).operand2) n) % 2 ^ (32 * n)
  borrow : (p (n - 1)).finished.specRegs.icc.getLsbD 0 = true ↔
    Limbs.value (fun k => (p k).operand1) n < Limbs.value (fun k => (p k).operand2) n
  delivers : Delivers p n

theorem Chain.step (chain : Chain p n first later) (starts : first.extended = false)
    (continues : later.extended = true) (value : Word → Word → Bool → Word)
    (flags : Word → Word → Bool → Flags)
    (computes : ∀ {q : Pass id σ} {op3}, op3 = first ∨ op3 = later → q.Executes op3 →
      (q.result = value q.operand1 q.operand2 (q.carryIn op3) ∧
        q.finished.specRegs.icc =
          Execute.iccOf (flags q.operand1 q.operand2 (q.carryIn op3))) ∧ q.Stored)
    {k : Nat} (bound : k < n) :
    (p k).result = value (p k).operand1 (p k).operand2 (carryInto p k) ∧
      carryInto p (k + 1) = (flags (p k).operand1 (p k).operand2 (carryInto p k)).carry ∧
      (p k).Stored := by
  obtain ⟨op3, which, executes, carry⟩ := chain.carryIn_eq starts continues bound
  obtain ⟨⟨result, icc⟩, stored⟩ := computes which executes
  rw [carry] at result icc
  refine ⟨result, ?_, stored⟩
  rw [carryInto, icc]
  exact (Execute.iccOf_bits _).2.2.2

theorem Chain.adds (chain : Chain p n .addcc .addxcc) (some : 1 ≤ n) : Adds p n := by
  have step := fun k (bound : k < n) => chain.step rfl rfl Flags.sum Flags.ofSum
    (fun which executes => ⟨executes.sum which,
      executes.stored (by obtain rfl | rfl := which <;> rfl)⟩) bound
  obtain ⟨sum, carry⟩ := Limbs.sum_chain (x := fun k => (p k).operand1)
    (y := fun k => (p k).operand2) (r := fun k => (p k).result) (c := carryInto p) (n := n) rfl
    (fun k bound => (step k bound).1) fun k bound => (step k bound).2.1
  rw [carryInto_last some] at carry
  exact ⟨sum, carry, fun k bound named => (step k bound).2.2.delivers named⟩

theorem Chain.subtracts (chain : Chain p n .subcc .subxcc) (some : 1 ≤ n) : Subtracts p n := by
  have step := fun k (bound : k < n) => chain.step rfl rfl Flags.difference Flags.ofDifference
    (fun which executes => ⟨executes.difference which,
      executes.stored (by obtain rfl | rfl := which <;> rfl)⟩) bound
  obtain ⟨difference, borrow⟩ := Limbs.difference_chain (x := fun k => (p k).operand1)
    (y := fun k => (p k).operand2) (r := fun k => (p k).result) (c := carryInto p) (n := n) rfl
    (fun k bound => (step k bound).1) fun k bound => (step k bound).2.1
  rw [carryInto_last some] at borrow
  exact ⟨difference, borrow, fun k bound named => (step k bound).2.2.delivers named⟩

/-- Adding word by word adds the whole numbers, and subtracting subtracts them. -/
theorem limbs_exact (some : 1 ≤ n) (p : Nat → Pass id σ) :
    (Chain p n .addcc .addxcc → Adds p n) ∧ (Chain p n .subcc .subxcc → Subtracts p n) :=
  ⟨fun chain => chain.adds some, fun chain => chain.subtracts some⟩

end Pass

namespace Run

def chained : List (Round Unit) :=
  let program := fun pc : Word =>
    if pc = 0 then arithmeticWord 0x10 1 0 0x1FFF else if pc = 4 then arithmeticWord 0x18 2 1 1
    else if pc = 8 then arithmeticWord 0x14 3 0 1 else arithmeticWord 0x1C 4 0 0
  [.ofProgram program false .create, .ofProgram program false .create,
    .ofProgram program false .create, .ofProgram program false .create]

theorem limbs_exact_chained :
    ∃ run : Run 0 Unit, Pass.Adds run.entry 2 ∧ Pass.Subtracts (fun k => run.entry (k + 2)) 2 := by
  obtain ⟨run, holds⟩ := Run.exists_of_check
    (fun length (entry : Nat → Pass 0 Unit) =>
      length == 4 && executes (entry 0) .addcc && executes (entry 1) .addxcc &&
        executes (entry 2) .subcc && executes (entry 3) .subxcc)
    chained (by decide +kernel)
  simp only [Bool.and_eq_true, beq_iff_eq] at holds
  obtain ⟨⟨⟨⟨length, first⟩, second⟩, third⟩, fourth⟩ := holds
  have follows : ∀ k, k + 1 < 4 →
      (run.entry (k + 1)).start.specRegs.icc = (run.entry k).finished.specRegs.icc :=
    fun k bound => congrArg (fun ht => ht.specRegs.icc) (run.linked k (by omega))
  have only : ∀ k, 0 < k → k < 2 → k = 1 := by omega
  refine ⟨run, (Pass.limbs_exact (by decide) _).1 ⟨fun _ => ?_, fun k low high => ?_, ?_⟩,
    (Pass.limbs_exact (by decide) _).2 ⟨fun _ => ?_, fun k low high => ?_, ?_⟩⟩
  · exact run.executes_of (by omega) first
  · obtain rfl := only k low high
    exact run.executes_of (by omega) second
  · exact fun k bound => follows k (by omega)
  · exact run.executes_of (by omega) third
  · obtain rfl := only k low high
    exact run.executes_of (by omega) fourth
  · exact fun k bound => follows (k + 2) (by omega)

end Run

end PretIss
