import PretIss.Library.Hexadecimal
import PretIss.Model.MemoryController

/-! The files that say which words of the main memory are loaded into a scratchpad before
a program starts: how the scheduler writes them and how they are loaded. A file is the
list of its characters, and a file that is not there is `none`. -/

namespace PretIss

open Hexadecimal

namespace StaticBoundParser

abbrev instScratchStart : Word := 0
abbrev dataScratchStart : Word := 0x8000

/-- A stream over one line is good until an extraction fails or meets the end. -/
structure Istringstream where
  rest : List Char
  good : Bool

/-- `ss >> hex >> old`: nothing is stored where no character is left, zero where there is
no number, and the largest word where the number is too large. -/
def extract (ss : Istringstream) (old : Word) : Istringstream × Word :=
  let rest := skipBlanks ss.rest
  if !ss.good || rest.isEmpty then ({ rest, good := false }, old)
  else
    match scan rest with
    | none => ({ rest, good := false }, 0)
    | some found =>
        if found.value < 2 ^ 32 then
          ({ rest := found.rest, good := !found.rest.isEmpty },
            if found.negative then -BitVec.ofNat 32 found.value else BitVec.ofNat 32 found.value)
        else ({ rest := found.rest, good := false }, 0xFFFFFFFF)

/-- The bounds of a line are stored over those of the line before. -/
def readBounds (line : List Char) (bounds : Word × Word) : Word × Word :=
  let (ss, min) := extract { rest := line, good := true } bounds.1
  (min, (extract ss bounds.2).2)

/-- The loop over one range, with so many words left up to the end of the half of the
scratchpad. It tells whether a word met that end, which stops the whole load. -/
def loadRange (mainMemory : MemoryUnit) (max : Word) :
    (room : Nat) → (addr spmAddr : Word) → L1Scratch → L1Scratch × Bool
  | 0, addr, _, spm => (spm, addr < max)
  | room + 1, addr, spmAddr, spm =>
      if addr < max then
        loadRange mainMemory max room (addr + 4) (spmAddr + 4)
          (spm.addAddr addr spmAddr (mainMemory.read addr))
      else (spm, false)

/-- The loop over the lines. Each of them starts at the beginning of the half. -/
def loadLines (mainMemory : MemoryUnit) (scratchStartAddr : Word) :
    List (List Char) → Word × Word → L1Scratch → L1Scratch
  | [], _, spm => spm
  | line :: rest, bounds, spm =>
      let bounds := readBounds line bounds
      if line.isEmpty then loadLines mainMemory scratchStartAddr rest bounds spm
      else
        let (spm, overloaded) :=
          loadRange mainMemory bounds.2 (scratchSize / 2 / 4) bounds.1 scratchStartAddr spm
        if overloaded then spm else loadLines mainMemory scratchStartAddr rest bounds spm

def loadSpm (mc : MemoryController) (tid : ThreadId) (scratchStartAddr : Word) :
    Option (List Char) → MemoryController
  | none => mc
  | some text =>
      { mc with
        instScratchpad := Function.update mc.instScratchpad tid
          (loadLines mc.mainMem.mem scratchStartAddr (text.splitOn '\n') (0, 0)
            (mc.instScratchpad tid)) }

def loadInstSpm (mc : MemoryController) (tid : ThreadId) (ispm : Option (List Char)) :
    MemoryController :=
  loadSpm mc tid instScratchStart ispm

def loadDataSpm (mc : MemoryController) (tid : ThreadId) (dspm : Option (List Char)) :
    MemoryController :=
  loadSpm mc tid dataScratchStart dspm

end StaticBoundParser

namespace StaticSchedule

/-- `'%8x %8x\n'%(pc,pc)`. -/
def ispmLine (pc : Word) : List Char := format 8 pc.toNat ++ ' ' :: format 8 pc.toNat ++ ['\n']

/-- A positive size of the scratchpad is a limit; beyond it an error is reported and no
file is written. -/
def generateIspmFile (spmSize : Int) (mergedInst : List Word) : Option (List Char) :=
  if 0 < spmSize ∧ ¬ (mergedInst.length : Int) ≤ spmSize then none
  else some (mergedInst.flatMap ispmLine)

end StaticSchedule

end PretIss
