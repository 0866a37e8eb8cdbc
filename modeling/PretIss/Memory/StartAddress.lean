import PretIss.Memory.SrecRecords

/-! One parser reads the files of all threads, and what it has read of a start address stays
with it. A file that names no address of its own gets that of the last file that named one. -/

namespace PretIss

namespace SrecParser

def startRecord (srecFile : List Char) : Option Word := do
  let (sType, srecFile) ← scanString (some 2) srecFile
  let (_, srecFile) ← (scanHex 2 srecFile).toOption
  let width ← addressWidth sType[1]?
  let (currentAddr, _) ← (scanHex (2 * width) srecFile).toOption
  if isStart sType[1]? then some (BitVec.ofInt 32 currentAddr) else none

def lastStart (srecFile : List Char) : Option Word :=
  match _reads : (create .empty).readline srecFile with
  | .ok (_, some rest) => (lastStart rest).or (startRecord srecFile)
  | .ok (_, none) | .error _ => startRecord srecFile
termination_by srecFile.length
decreasing_by exact readline_shorter _reads

def lastStartOf : List (Option (List Char)) → Option Word
  | [] => none
  | srecFile :: srecFiles => (lastStartOf srecFiles).or (srecFile.bind lastStart)

theorem readWords_left (mem other : MemoryUnit) (currentAddr otherAddr : Word)
    (remainingBytes : Int) (srecFile : List Char) :
    (readWords mem currentAddr remainingBytes srecFile).map Prod.snd =
      (readWords other otherAddr remainingBytes srecFile).map Prod.snd := by
  fun_induction readWords mem currentAddr remainingBytes srecFile generalizing other otherAddr with
  | case1 =>
      rw [readWords]
      rfl
  | case2 mem currentAddr remainingBytes srecFile more halt fails =>
      rw [readWords, if_neg more]
      split
      · rename_i reads
        rw [fails] at reads
        cases reads
        rfl
      · rename_i reads
        rw [fails] at reads
        cases reads
  | case3 mem currentAddr remainingBytes srecFile more nextWord rest first ih =>
      conv_rhs => rw [readWords, if_neg more]
      split
      · rename_i reads
        rw [first] at reads
        cases reads
      · rename_i reads
        rw [first] at reads
        cases reads
        exact ih _ _

theorem readline_left (parser other : SrecParser) (srecFile : List Char) :
    (parser.readline srecFile).map Prod.snd = (other.readline srecFile).map Prod.snd := by
  unfold readline
  split
  · rfl
  · rename_i sType file scans
    cases counts : scanHex 2 file with
    | error halt => rfl
    | ok counted =>
        simp only [bind, Except.bind]
        split
        · rfl
        · rename_i width wide
          cases addresses : scanHex (2 * width) counted.2 with
          | error halt => rfl
          | ok addressed =>
              simp only
              split
              · rfl
              · split
                · rfl
                · have same := readWords_left parser.mem other.mem (BitVec.ofInt 32 addressed.1)
                    (BitVec.ofInt 32 addressed.1) (counted.1 - width) addressed.2
                  cases first : readWords parser.mem (BitVec.ofInt 32 addressed.1)
                      (counted.1 - width) addressed.2 <;>
                    cases second : readWords other.mem (BitVec.ofInt 32 addressed.1)
                      (counted.1 - width) addressed.2 <;>
                    simp_all [Except.map, pure, Except.pure]

theorem startingAddr_readline {parser parser' : SrecParser} {srecFile : List Char}
    {left : Option (List Char)} (reads : parser.readline srecFile = .ok (parser', left)) :
    parser'.startingAddr = (startRecord srecFile).getD parser.startingAddr := by
  simp only [readline] at reads
  split at reads
  · rename_i ends
    obtain ⟨rfl, -⟩ := Prod.mk.inj (Except.ok.inj reads)
    simp [startRecord, ends]
  · rename_i sType file scans
    obtain ⟨⟨count, counted⟩, counts, reads⟩ := Transition.bind_eq_ok.mp reads
    simp only at reads
    split at reads
    · rename_i ignored
      obtain ⟨rfl, -⟩ := Prod.mk.inj (Except.ok.inj reads)
      simp [startRecord, scans, counts, ignored, Except.toOption]
    · rename_i width wide
      obtain ⟨⟨address, addressed⟩, addresses, reads⟩ := Transition.bind_eq_ok.mp reads
      simp only at reads
      split at reads
      · rename_i start
        obtain ⟨rfl, -⟩ := Prod.mk.inj (Except.ok.inj reads)
        simp [startRecord, scans, counts, wide, addresses, start, Except.toOption]
      · rename_i other
        have unnamed : startRecord srecFile = none := by
          simp [startRecord, scans, counts, wide, other, Except.toOption]
        rw [unnamed]
        split at reads
        · obtain ⟨rfl, -⟩ := Prod.mk.inj (Except.ok.inj reads)
          rfl
        · obtain ⟨⟨mem, stored⟩, -, reads⟩ := Transition.bind_eq_ok.mp reads
          obtain ⟨rfl, -⟩ := Prod.mk.inj (Except.ok.inj reads)
          rfl

theorem readlines_of_error {parser : SrecParser} {text : List Char} {halt : Halt}
    (reads : parser.readline text = .error halt) : parser.readlines text = .error halt := by
  rw [readlines]
  split
  · rename_i same
    rw [reads] at same
    cases same
    rfl
  · rename_i same
    rw [reads] at same
    cases same
  · rename_i same
    rw [reads] at same
    cases same

section

variable (parser other : SrecParser) (srecFile : List Char)

theorem readline_other : (∀ halt, parser.readline srecFile = .error halt →
      other.readline srecFile = .error halt) ∧
    ∀ parser' left, parser.readline srecFile = .ok (parser', left) →
      ∃ other', other.readline srecFile = .ok (other', left) := by
  have same := readline_left parser other srecFile
  constructor
  · intro halt reads
    rw [reads] at same
    cases reached : other.readline srecFile with
    | error halt' =>
        rw [reached] at same
        cases same
        rfl
    | ok found =>
        rw [reached] at same
        cases same
  · intro parser' left reads
    rw [reads] at same
    cases reached : other.readline srecFile with
    | error halt' =>
        rw [reached] at same
        cases same
    | ok found =>
        rw [reached] at same
        cases same
        exact ⟨found.1, rfl⟩

end

theorem readlines_left (parser other : SrecParser) (srecFile : List Char) :
    (parser.readlines srecFile).map (fun _ => ()) =
      (other.readlines srecFile).map (fun _ => ()) := by
  fun_induction readlines parser srecFile generalizing other with
  | case1 parser srecFile halt reads =>
      rw [readlines_of_error ((readline_other parser other srecFile).1 halt reads)]
  | case2 parser srecFile parser' reads =>
      obtain ⟨other', reached⟩ := (readline_other parser other srecFile).2 _ _ reads
      rw [readlines_of_end reached]
      rfl
  | case3 parser srecFile parser' rest reads ih =>
      obtain ⟨other', reached⟩ := (readline_other parser other srecFile).2 _ _ reads
      rw [readlines_of_more reached]
      exact ih other'

theorem lastStart_of_end {parser parser' : SrecParser} {srecFile : List Char}
    (reads : parser.readline srecFile = .ok (parser', none)) :
    lastStart srecFile = startRecord srecFile := by
  obtain ⟨other, reached⟩ := (readline_other parser (create .empty) srecFile).2 _ _ reads
  rw [lastStart]
  split
  · rename_i more
    rw [reached] at more
    cases more
  · rfl
  · rfl

theorem lastStart_of_more {parser parser' : SrecParser} {srecFile rest : List Char}
    (reads : parser.readline srecFile = .ok (parser', some rest)) :
    lastStart srecFile = (lastStart rest).or (startRecord srecFile) := by
  obtain ⟨other, reached⟩ := (readline_other parser (create .empty) srecFile).2 _ _ reads
  rw [lastStart]
  split
  · rename_i more
    rw [reached] at more
    cases more
    rfl
  · rename_i ended
    rw [reached] at ended
    cases ended
  · rename_i failed
    rw [reached] at failed
    cases failed

theorem startingAddr_readlines {parser parser' : SrecParser} {srecFile : List Char}
    (reads : parser.readlines srecFile = .ok parser') :
    parser'.startingAddr = (lastStart srecFile).getD parser.startingAddr := by
  fun_induction readlines parser srecFile with
  | case1 => cases reads
  | case2 parser srecFile final ends =>
      cases reads
      rw [lastStart_of_end ends, startingAddr_readline ends]
  | case3 parser srecFile next rest first ih =>
      rw [ih reads, lastStart_of_more first, startingAddr_readline first]
      cases lastStart rest <;> rfl

theorem startingAddr_parse {parser parser' : SrecParser} {srecFile : Option (List Char)}
    {start : Word} (parses : parser.parse srecFile = .ok (parser', start)) :
    parser'.startingAddr = (srecFile.bind lastStart).getD parser.startingAddr ∧
      start = if srecFile.isSome then parser'.startingAddr else 0 := by
  cases srecFile with
  | none =>
      cases parses
      exact ⟨rfl, rfl⟩
  | some text =>
      obtain ⟨final, reads, same⟩ := Transition.bind_eq_ok.mp parses
      cases same
      exact ⟨startingAddr_readlines reads, rfl⟩

theorem startingAddr_parseFiles {parser parser' : SrecParser}
    {srecFiles : List (Option (List Char))} {starts : List Word}
    (parses : parser.parseFiles srecFiles = .ok (parser', starts)) :
    parser'.startingAddr = (lastStartOf srecFiles).getD parser.startingAddr := by
  induction srecFiles generalizing parser starts with
  | nil =>
      cases parses
      rfl
  | cons srecFile srecFiles ih =>
      obtain ⟨⟨next, start⟩, first, parses⟩ := Transition.bind_eq_ok.mp parses
      obtain ⟨⟨last, later⟩, rest, same⟩ := Transition.bind_eq_ok.mp parses
      cases same
      rw [ih rest, (startingAddr_parse first).1, lastStartOf]
      cases lastStartOf srecFiles <;> rfl

/-- A file is given its own start address: it is missing or names one, or the parser still has,
or has again, the address with which it was constructed. -/
def OwnStart (earlier : List (Option (List Char))) (srecFile : Option (List Char)) : Prop :=
  ∀ text, srecFile = some text → lastStart text = none →
    ∀ addr, lastStartOf earlier = some addr → addr = 0x40000000

theorem parse_create (mem : MemoryUnit) {parser parser' : SrecParser} {text : List Char}
    {start : Word} (parses : parser.parse (some text) = .ok (parser', start)) :
    ((create mem).parse (some text)).map Prod.snd = .ok ((lastStart text).getD 0x40000000) := by
  obtain ⟨final, reads, -⟩ := Transition.bind_eq_ok.mp parses
  have same := readlines_left parser (create mem) text
  rw [reads] at same
  cases reached : (create mem).readlines text with
  | error halt =>
      rw [reached] at same
      cases same
  | ok found =>
      rw [parse, reached]
      exact congrArg Except.ok (startingAddr_readlines reached)

/-- The parser returns for a file what a fresh one returns for it alone exactly where the file
is given its own start address. -/
theorem parse_eq_fresh_iff {mem : MemoryUnit} {earlier : List (Option (List Char))}
    {parser : SrecParser} {starts : List Word}
    (before : (create mem).parseFiles earlier = .ok (parser, starts))
    {srecFile : Option (List Char)} {parser' : SrecParser} {start : Word}
    (parses : parser.parse srecFile = .ok (parser', start)) (fresh : MemoryUnit) :
    ((create fresh).parse srecFile).map Prod.snd = .ok start ↔ OwnStart earlier srecFile := by
  obtain ⟨kept, returned⟩ := startingAddr_parse parses
  cases srecFile with
  | none =>
      rw [returned]
      exact iff_of_true rfl fun text absent => nomatch absent
  | some text =>
      have inherited := startingAddr_parseFiles before
      have value : start = (lastStart text).getD ((lastStartOf earlier).getD 0x40000000) := by
        rw [returned, kept, inherited]
        rfl
      rw [parse_create fresh parses, value, Except.ok.injEq]
      constructor
      · intro same found file unnamed addr last
        obtain rfl := Option.some.inj file
        rw [unnamed, last] at same
        exact same.symm
      · intro own
        cases named : lastStart text with
        | some addr => rfl
        | none =>
            cases last : lastStartOf earlier with
            | none => rfl
            | some addr => exact (own text rfl named addr last).symm

/-- A program that starts behind the address of the constructor. -/
def starting : Record := .start 4 "05".toList "40001000".toList "AA".toList

def startless : Record :=
  .data 4 "09".toList "40000000".toList ["01000000".toList] "B5".toList

theorem starting_wellFormed : starting.WellFormed :=
  ⟨Or.inr (Or.inr rfl), .of_digits rfl, .of_digits rfl, .of_digits rfl⟩

theorem startless_wellFormed : startless.WellFormed := by
  refine ⟨Or.inr (Or.inr rfl), .of_digits rfl, .of_digits rfl, ?_, .of_digits rfl, by decide⟩
  rw [List.forall_mem_singleton]
  exact .of_digits rfl

theorem parse_record (parser : SrecParser) {record : Record} (formed : record.WellFormed) :
    parser.parse (some record.text) =
      .ok (parser.loaded [record], (parser.loaded [record]).startingAddr) := by
  have listing : Listing [] [record] ([] ++ (record.text ++ [])) :=
    .cons (List.forall_mem_nil _) (by simp) .nil
  rw [List.nil_append, List.append_nil] at listing
  rw [parse, readlines_listing parser (List.forall_mem_singleton.mpr formed) listing,
    readlines_of_end (readline_blank (List.forall_mem_nil _) _)]
  rfl

theorem parseFiles_starting (parser : SrecParser) :
    parser.parseFiles [some starting.text] = .ok (parser.loaded [starting], [0x40001000]) := by
  rw [parseFiles, parse_record parser starting_wellFormed]
  rfl

theorem parse_startless (parser : SrecParser) :
    parser.parse (some startless.text) = .ok (parser.loaded [startless], parser.startingAddr) :=
  parse_record parser startless_wellFormed

/-- The program without a start record starts where the one before it does. -/
theorem parse_inherits :
    ∃ parser starts parser',
      (create .empty).parseFiles [some starting.text] = .ok (parser, starts) ∧
        parser.parse (some startless.text) = .ok (parser', 0x40001000) ∧
        ((create .empty).parse (some startless.text)).map Prod.snd = .ok 0x40000000 := by
  refine ⟨_, _, _, parseFiles_starting _, parse_startless _, ?_⟩
  rw [parse_startless]
  rfl

theorem parse_eq_fresh_iff_startless :
    ((create .empty).parse (some startless.text)).map Prod.snd = .ok 0x40001000 ↔
      OwnStart [some starting.text] (some startless.text) :=
  parse_eq_fresh_iff (parseFiles_starting (create .empty)) (parse_startless _) .empty

end SrecParser

end PretIss
