import PretIss.Library.Hexadecimal
import PretIss.Library.Transition
import PretIss.Model.Memory

/-! The parser that loads a program from a file of S-records. The file is the list of its
characters that have not been read yet; each conversion of `fscanf` takes some from its
front. A conversion whose success is asserted fails by the assertion. -/

namespace PretIss

open Hexadecimal

/-- A conversion `%s`, with a field width or without; at the end of the file there is none. -/
def scanString (width : Option Nat) (file : List Char) : Option (List Char × List Char) :=
  let text := skipBlanks file
  let word := text.takeWhile (!isBlank ·)
  let word := width.elim word word.take
  if text.isEmpty then none else some (word, text.drop word.length)

/-- An asserted conversion `%x` with a field width. -/
def scanHex (width : Nat) (file : List Char) : Except Halt (Int × List Char) :=
  let text := skipBlanks file
  match scan (text.take width) with
  | none => .error .assertionFailed
  | some found =>
      .ok (if found.negative then -found.value else found.value, found.rest ++ text.drop width)

theorem length_skipBlanks_le (file : List Char) : (skipBlanks file).length ≤ file.length :=
  (List.dropWhile_sublist _).length_le

theorem scanString_shorter {width : Option Nat} (wide : width ≠ some 0)
    {file word rest : List Char} (reads : scanString width file = some (word, rest)) :
    rest.length < file.length := by
  have shorter := length_skipBlanks_le file
  simp only [scanString, Option.ite_none_left_eq_some, Option.some.injEq, Prod.mk.injEq] at reads
  obtain ⟨more, rfl, rfl⟩ := reads
  cases left : skipBlanks file with
  | nil => simp [left] at more
  | cons c text =>
      have solid : isBlank c = false := by
        have head := List.head?_dropWhile_not isBlank file
        rw [skipBlanks] at left
        rw [left] at head
        simpa using head
      rw [left] at shorter
      have some : 0 < (width.elim ((c :: text).takeWhile (!isBlank ·))
          ((c :: text).takeWhile (!isBlank ·)).take).length := by
        rw [List.takeWhile_cons_of_pos (by simp [solid])]
        cases width with
        | none => simp
        | some n => simpa using Nat.pos_of_ne_zero (by simpa using wide)
      rw [List.length_drop]
      simp only [List.length_cons] at shorter ⊢
      omega

theorem scanHex_shorter {width : Nat} {file rest : List Char} {value : Int}
    (reads : scanHex width file = .ok (value, rest)) : rest.length < file.length := by
  have shorter := length_skipBlanks_le file
  simp only [scanHex] at reads
  split at reads
  · cases reads
  · rename_i found scans
    obtain ⟨_, rfl⟩ := Prod.mk.inj (Except.ok.inj reads)
    have consumed := scan_shorter scans
    rw [List.length_take] at consumed
    rw [List.length_append, List.length_drop]
    omega

structure SrecParser where
  mem : MemoryUnit
  startingAddr : Word

namespace SrecParser

def create (mem : MemoryUnit) : SrecParser where
  mem := mem
  startingAddr := 0x40000000

/-- How many bytes the address of a record of this type has. -/
def addressWidth : Option Char → Option Nat
  | some '1' | some '9' => some 2
  | some '2' | some '8' => some 3
  | some '3' | some '7' => some 4
  | _ => none

def isStart (sType : Option Char) : Bool := sType == some '7' || sType == some '8' || sType == some '9'

/-- The loop over the words of a record; the byte that remains is the checksum. -/
def readWords (mem : MemoryUnit) (currentAddr : Word) (remainingBytes : Int)
    (srecFile : List Char) : Except Halt (MemoryUnit × List Char) :=
  if remainingBytes = 1 then .ok (mem, srecFile)
  else
    match reads : scanHex 8 srecFile with
    | .error halt => .error halt
    | .ok (nextWord, rest) =>
        readWords (mem.addAddress currentAddr (BitVec.ofInt 32 nextWord)) (currentAddr + 4)
          (remainingBytes - 4) rest
termination_by srecFile.length
decreasing_by exact scanHex_shorter reads

/-- What is left of the file behind a checksum, which is read and ignored. -/
def skipChecksum (srecFile : List Char) : Option (List Char) :=
  (scanString (some 2) srecFile).map Prod.snd

/-- One record. The file that remains is `none` where the source returns `EOF`, at the end of
the file or for a record whose count it rejects. -/
def readline (parser : SrecParser) (srecFile : List Char) :
    Except Halt (SrecParser × Option (List Char)) :=
  match scanString (some 2) srecFile with
  | none => .ok (parser, none)
  | some (sType, srecFile) => do
      let (remainingBytes, srecFile) ← scanHex 2 srecFile
      match addressWidth sType[1]? with
      | none => return (parser, (scanString none srecFile).map Prod.snd)
      | some width => do
          let (currentAddr, srecFile) ← scanHex (2 * width) srecFile
          let remainingBytes := remainingBytes - width
          if isStart sType[1]? then
            return ({ parser with startingAddr := BitVec.ofInt 32 currentAddr },
              skipChecksum srecFile)
          else if remainingBytes.tmod 4 ≠ 1 then return (parser, none)
          else do
            let (mem, srecFile) ←
              readWords parser.mem (BitVec.ofInt 32 currentAddr) remainingBytes srecFile
            return ({ parser with mem }, skipChecksum srecFile)

theorem readWords_shorter {mem mem' : MemoryUnit} {currentAddr : Word} {remainingBytes : Int}
    {srecFile rest : List Char}
    (reads : readWords mem currentAddr remainingBytes srecFile = .ok (mem', rest)) :
    rest.length ≤ srecFile.length := by
  fun_induction readWords mem currentAddr remainingBytes srecFile with
  | case1 =>
      obtain ⟨_, rfl⟩ := Prod.mk.inj (Except.ok.inj reads)
      exact le_refl _
  | case2 => cases reads
  | case3 mem currentAddr remainingBytes srecFile more nextWord left first ih =>
      have shorter := scanHex_shorter first
      have later := ih reads
      omega

theorem skipChecksum_shorter {srecFile rest : List Char}
    (skips : skipChecksum srecFile = some rest) : rest.length < srecFile.length := by
  obtain ⟨⟨word, left⟩, scans, rfl⟩ := Option.map_eq_some_iff.mp skips
  exact scanString_shorter (by simp) scans

/-- A record that is not the last one consumes some of the file. -/
theorem readline_shorter {parser parser' : SrecParser} {srecFile rest : List Char}
    (reads : parser.readline srecFile = .ok (parser', some rest)) :
    rest.length < srecFile.length := by
  simp only [readline] at reads
  split at reads
  · cases reads
  · rename_i sType file scans
    have first := scanString_shorter (by simp) scans
    obtain ⟨⟨count, counted⟩, counts, reads⟩ := Transition.bind_eq_ok.mp reads
    have second := scanHex_shorter counts
    simp only at reads
    split at reads
    · have left := (Prod.mk.inj (Except.ok.inj reads)).2
      obtain ⟨⟨word, left⟩, skips, rfl⟩ := Option.map_eq_some_iff.mp left
      exact lt_trans (scanString_shorter (by simp) skips) (lt_trans second first)
    · rename_i width _
      obtain ⟨⟨address, addressed⟩, addresses, reads⟩ := Transition.bind_eq_ok.mp reads
      have third := scanHex_shorter addresses
      simp only at reads
      split at reads
      · have fourth := skipChecksum_shorter (Prod.mk.inj (Except.ok.inj reads)).2
        omega
      · split at reads
        · cases reads
        · obtain ⟨⟨mem, stored⟩, stores, reads⟩ := Transition.bind_eq_ok.mp reads
          have fourth := readWords_shorter stores
          have fifth := skipChecksum_shorter (Prod.mk.inj (Except.ok.inj reads)).2
          change rest.length < stored.length at fifth
          omega

/-- The loop over the records. -/
def readlines (parser : SrecParser) (srecFile : List Char) : Except Halt SrecParser :=
  match _reads : parser.readline srecFile with
  | .error halt => .error halt
  | .ok (parser, none) => .ok parser
  | .ok (parser, some rest) => readlines parser rest
termination_by srecFile.length
decreasing_by exact readline_shorter _reads

/-- The parser and the address that it returns; zero for a file that is not there. -/
def parse (parser : SrecParser) : Option (List Char) → Except Halt (SrecParser × Word)
  | none => .ok (parser, 0)
  | some srecFile => do
      let parser ← readlines parser srecFile
      return (parser, parser.startingAddr)

/-- The files of the threads, one after another, and the addresses at which the threads start. -/
def parseFiles (parser : SrecParser) :
    List (Option (List Char)) → Except Halt (SrecParser × List Word)
  | [] => .ok (parser, [])
  | srecFile :: srecFiles => do
      let (parser, startingAddr) ← parse parser srecFile
      let (parser, startingAddrs) ← parseFiles parser srecFiles
      return (parser, startingAddr :: startingAddrs)

end SrecParser

end PretIss
