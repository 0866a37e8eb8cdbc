import PretIss.Memory.Grant
import PretIss.Model.Dma

/-! The contents of the memories as one value, and the accesses of the memory
controller and of the DMA engine as operations on it. An access to main memory
takes effect in the slots of its thread; every other access takes effect at
once. -/

namespace PretIss

/-- A word outside the scratchpads. The DMA engine reads main memory at any
address, so an address alone does not say which of the two memories is meant. -/
inductive Location where
  | main (addr : Word)
  | mapped (addr : Word)
  deriving DecidableEq, Repr

structure Contents where
  spm : ThreadId → L1Scratch
  main : MemoryUnit
  mapped : MemoryUnit

namespace Contents

def place (m : Contents) (tid : ThreadId) (addr : Word) : Option Location :=
  if (m.spm tid).isAddrInSpm addr then none
  else if MemoryController.isMainMem addr then some (.main addr)
  else some (.mapped addr)

def wordAt (m : Contents) : Location → Word
  | .main addr => m.main.read addr
  | .mapped addr => m.mapped.read addr

def value (m : Contents) (tid : ThreadId) (addr : Word) : Word :=
  match m.place tid addr with
  | none => (m.spm tid).mem.read addr
  | some location => m.wordAt location

def setSpm (m : Contents) (tid : ThreadId) (spm : L1Scratch) : Contents :=
  { m with spm := Function.update m.spm tid spm }

def put (m : Contents) (tid : ThreadId) (addr data : Word) : Contents :=
  match m.place tid addr with
  | none => m.setSpm tid { m.spm tid with mem := (m.spm tid).mem.addAddress addr data }
  | some (.main addr) => { m with main := m.main.addAddress addr data }
  | some (.mapped addr) => { m with mapped := m.mapped.addAddress addr data }

/-- Whether an access takes effect in a cycle. -/
def granted (m : Contents) (cycles : BitVec 32) (tid : ThreadId) (addr : Word) : Bool :=
  match m.place tid addr with
  | some (.main _) => slotGranted cycles tid
  | some (.mapped _) | none => true

def transfer (m : Contents) (tid : ThreadId) (source target : Word) : Contents :=
  m.setSpm tid
    (Dma.moveData (m.spm tid) source target
      ((WheeledMem.burstAddrs source 4).map m.main.read))

end Contents

namespace MemoryController

def contents (mc : MemoryController) : Contents where
  spm := mc.instScratchpad
  main := mc.mainMem.mem
  mapped := mc.memMappedIo.mem

structure Holds (mc : MemoryController) (m : Contents) : Prop where
  contents : mc.contents = m
  built : mc.mainMem.Constructed

theorem Holds.behavior {mc : MemoryController} {m : Contents} (holds : mc.Holds m) :
    mc.behavior.Holds m where
  contents := by simpa [MemoryController.contents, MemoryController.behavior] using holds.contents
  built := holds.built.behavior

theorem place_cases (mc : MemoryController) (tid : ThreadId) (addr : Word) :
    (mc.isAddrInSpm tid addr = true ∧ mc.contents.place tid addr = none) ∨
      (mc.isAddrInSpm tid addr = false ∧ isMainMem addr = true ∧
        mc.contents.place tid addr = some (.main addr)) ∨
      (mc.isAddrInSpm tid addr = false ∧ isMainMem addr = false ∧
        mc.contents.place tid addr = some (.mapped addr)) := by
  change (_ ∧ ite (mc.isAddrInSpm tid addr = true) _ _ = _) ∨
    (_ ∧ _ ∧ ite (mc.isAddrInSpm tid addr = true) _ _ = _) ∨
      (_ ∧ _ ∧ ite (mc.isAddrInSpm tid addr = true) _ _ = _)
  cases inSpm : mc.isAddrInSpm tid addr <;> cases inMain : isMainMem addr <;> simp

theorem readData_holds {mc : MemoryController} {m : Contents} (holds : mc.Holds m)
    (cycles : BitVec 32) (tid : ThreadId) (addr : Word) :
    ∃ mc', mc.readData cycles tid addr =
        .ok (mc', m.value tid addr, !m.granted cycles tid addr) ∧ mc'.Holds m := by
  obtain ⟨same, built⟩ := holds
  subst same
  obtain ⟨inSpm, place⟩ | ⟨inSpm, inMain, place⟩ | ⟨inSpm, inMain, place⟩ :=
    place_cases mc tid addr
  · refine ⟨mc, ?_, rfl, built⟩
    simp [readData, inSpm, L1Scratch.read, Contents.value, Contents.granted, place]
    rfl
  · obtain ⟨w, answer, kept, ready⟩ := WheeledMem.read_constructed built cycles tid addr
    refine ⟨{ mc with mainMem := w }, ?_, ?_, ready⟩
    · simp [readData, inSpm, inMain, answer, bind, Except.bind, pure, Except.pure,
        Contents.value, Contents.granted, place]
      rfl
    · simp [contents, kept]
  · refine ⟨mc, ?_, rfl, built⟩
    simp [readData, inSpm, inMain, MemMappedIo.read, MemMappedIo.isStalled, Contents.value,
      Contents.granted, place]
    rfl

theorem readInst_holds {mc : MemoryController} {m : Contents} (holds : mc.Holds m)
    (cycles : BitVec 32) (tid : ThreadId) (addr : Word) :
    ∃ mc', mc.readInst cycles tid addr =
        .ok (mc', m.value tid addr, !m.granted cycles tid addr) ∧ mc'.Holds m := by
  have enabled : ¬ maxThread ≤ tid.val := by
    have := tid.isLt
    simp only [numThreads, maxThread] at this ⊢
    omega
  simpa [readInst, enabled] using readData_holds holds cycles tid addr

theorem writeData_holds {mc : MemoryController} {m : Contents} (holds : mc.Holds m)
    (cycles : BitVec 32) (tid : ThreadId) (addr data : Word) :
    ∃ mc', mc.writeData cycles tid addr data = .ok (mc', !m.granted cycles tid addr) ∧
      mc'.Holds (if m.granted cycles tid addr then m.put tid addr data else m) := by
  obtain ⟨same, built⟩ := holds
  subst same
  obtain ⟨inSpm, place⟩ | ⟨inSpm, inMain, place⟩ | ⟨inSpm, inMain, place⟩ :=
    place_cases mc tid addr
  · let spm := ((mc.instScratchpad tid).write addr data).1
    refine ⟨{ mc with instScratchpad := Function.update mc.instScratchpad tid spm }, ?_, ?_, built⟩
    · simp [writeData, inSpm, L1Scratch.write, Contents.granted, place, spm]
    · simp only [Contents.granted, Contents.put, place]
      rfl
  · obtain ⟨w, answer, stored, ready⟩ := WheeledMem.write_constructed built cycles tid addr data
    refine ⟨{ mc with mainMem := w }, ?_, ?_, ready⟩
    · simp [writeData, inSpm, inMain, answer, bind, Except.bind, pure, Except.pure,
        Contents.granted, place]
    · simp only [Contents.granted, Contents.put, place]
      simp only [contents, stored]
      split <;> rfl
  · refine ⟨{ mc with memMappedIo := (mc.memMappedIo.write addr data).1 }, ?_, ?_, built⟩
    · simp [writeData, inSpm, inMain, MemMappedIo.write, MemMappedIo.isStalled,
        Contents.granted, place]
    · simp only [Contents.granted, Contents.put, place]
      rfl

end MemoryController

namespace Dma

/-- A turn of the engine for one thread. -/
theorem serve_holds {mc : MemoryController} {m : Contents} (holds : mc.Holds m)
    (cycles : BitVec 32) (d : Dma) (id : ThreadId) :
    ∃ mc', serve cycles d mc id =
        .ok (if d.transferComplete id = .busy ∧ slotGranted cycles id
          then d.setTransferState id .idle else d, mc') ∧
      mc'.Holds (if d.transferComplete id = .busy ∧ slotGranted cycles id
        then m.transfer id (d.memSourceReg id) (d.spmTargetReg id) else m) := by
  obtain ⟨same, built⟩ := holds
  subst same
  by_cases busy : d.transferComplete id = .busy
  · obtain ⟨w, answer, kept, ready⟩ :=
      WheeledMem.readBurst_constructed built cycles id (d.memSourceReg id) 4 (by decide)
    cases granted : slotGranted cycles id with
    | false =>
        refine ⟨{ mc with mainMem := w }, ?_, ?_, ready⟩
        · rw [serve, if_neg (not_not.mpr busy)]
          simp only [answer, granted, bind, Except.bind, pure, Except.pure]
          simp
        · simp [MemoryController.contents, kept]
    | true =>
        refine ⟨{ mc with
          mainMem := w
          instScratchpad := Function.update mc.instScratchpad id
            (moveData (mc.instScratchpad id) (d.memSourceReg id) (d.spmTargetReg id)
              ((WheeledMem.burstAddrs (d.memSourceReg id) 4).map mc.mainMem.mem.read)) },
          ?_, ?_, ready⟩
        · rw [serve, if_neg (not_not.mpr busy)]
          simp only [answer, granted, bind, Except.bind, pure, Except.pure]
          simp [busy]
        · simp [MemoryController.contents, kept, busy, Contents.transfer, Contents.setSpm]
  · refine ⟨mc, ?_, ?_, built⟩
    · simp [serve, busy, pure, Except.pure]
    · simp [busy]

end Dma

end PretIss
