import PretIss.Model.DataSet

/-! The blocks that several tests missed are joined test by test. The first miss decides
the time and the instructions of the joined block, and a sequential block that is missed
again with a larger count stops the script. -/

namespace PretIss

open Dictionary (Dict Changes Greatest larger values)

namespace DataSet

section Merges

theorem changes_joinCount :
    Changes joinCount fun old count => old.map fun old => max old count := by
  refine ⟨fun dest k v => ?_, fun dest k v k' other => ?_⟩
  · cases found : dest.lookup k with
    | none => simp only [joinCount, found, Option.map_none]
    | some old =>
      by_cases less : old < v
      · simp only [joinCount, found, if_pos less, AList.lookup_insert, Option.map_some,
          max_eq_right less.le]
      · simp only [joinCount, found, if_neg less, Option.map_some, max_eq_left (not_lt.mp less)]
  · cases found : dest.lookup k with
    | none => simp only [joinCount, found]
    | some old =>
      simp only [joinCount, found]
      split
      · exact AList.lookup_insert_ne other
      · rfl

def Grows (joined src : Counts) : Prop :=
  ∃ pc old count, joined.lookup pc = some old ∧ src.lookup pc = some count ∧ old < count

theorem joinPc_cases (joined : Counts) (pc : Nat) (count : Int) :
    (∃ old, joined.lookup pc = some old ∧ old < count ∧
        joinPc joined pc count = .error (.nameError "extime")) ∨
      (∀ old, joined.lookup pc = some old → count ≤ old) ∧ joinPc joined pc count = .ok joined := by
  cases found : joined.lookup pc with
  | none => exact Or.inr ⟨nofun, by simp only [joinPc, found]; rfl⟩
  | some old =>
    by_cases less : old < count
    · refine Or.inl ⟨old, rfl, less, ?_⟩
      simp only [joinPc, found, if_pos less]
      rfl
    · refine Or.inr ⟨fun top is => ?_, ?_⟩
      · obtain rfl := Option.some_injective _ is
        exact not_lt.mp less
      · simp only [joinPc, found, if_neg less]
        rfl

theorem joinPcs_cases (joined src : Counts) :
    (Grows joined src ∧ joinPcs joined src = .error (.nameError "extime")) ∨
      ¬ Grows joined src ∧ joinPcs joined src = .ok joined := by
  have turns : ∀ entries : List (Σ _ : Nat, Int),
      ((∃ e ∈ entries, ∃ old, joined.lookup e.1 = some old ∧ old < e.2) ∧
          entries.foldlM (fun joined e => joinPc joined e.1 e.2) joined =
            .error (.nameError "extime")) ∨
        (∀ e ∈ entries, ∀ old, joined.lookup e.1 = some old → e.2 ≤ old) ∧
          entries.foldlM (fun joined e => joinPc joined e.1 e.2) joined = .ok joined := by
    intro entries
    induction entries with
    | nil => exact Or.inr ⟨nofun, rfl⟩
    | cons e entries ih =>
      rw [List.foldlM_cons]
      obtain ⟨old, found, less, stops⟩ | ⟨stays, goes⟩ := joinPc_cases joined e.1 e.2
      · rw [stops]
        exact Or.inl ⟨⟨e, List.mem_cons_self, old, found, less⟩, rfl⟩
      · rw [goes]
        refine ih.imp (And.imp_left ?_) (And.imp_left ?_)
        · rintro ⟨other, member, grows⟩
          exact ⟨other, List.mem_cons_of_mem e member, grows⟩
        · exact fun rest => List.forall_mem_cons.mpr ⟨stays, rest⟩
  refine (turns src.entries).imp (And.imp_left ?_) (And.imp_left ?_)
  · rintro ⟨e, member, old, found, less⟩
    exact ⟨e.1, old, e.2, found, AList.mem_lookup_iff.mpr member, less⟩
  · rintro stays ⟨pc, old, count, found, own, less⟩
    exact absurd (stays ⟨pc, count⟩ (AList.mem_lookup_iff.mp own) old found) (not_le.mpr less)

def Joins (joined src result : Counts) : Prop :=
  ∀ pc, result.lookup pc =
    (src.lookup pc).elim (joined.lookup pc) fun count => (joined.lookup pc).map (max · count)

theorem joins_joinCounts (joined src : Counts) : Joins joined src (joinCounts joined src) :=
  changes_joinCount.lookup_foldl joined src

theorem joins_of_stays {joined src : Counts} (stays : ¬ Grows joined src) :
    Joins joined src joined := by
  intro pc
  cases own : src.lookup pc with
  | none => rfl
  | some count =>
    cases found : joined.lookup pc with
    | none => rfl
    | some old =>
      have below : count ≤ old := not_lt.mp fun less => stays ⟨pc, old, count, found, own, less⟩
      rw [Option.elim_some, Option.map_some, max_eq_left below]

end Merges

def timing (dblock : DeadlineBlock) : Int × Int × Counts :=
  (dblock.deadlineValue, dblock.wcExecutionTime, dblock.pcs)

theorem isMissed_congr {first second : DeadlineBlock} (same : timing first = timing second) :
    isMissed first ↔ isMissed second := by
  simp only [timing, Prod.mk.injEq] at same
  rw [isMissed, isMissed, same.1, same.2.1]

def Frame (before after : DataSet) : Prop :=
  after.joinMissed = before.joinMissed ∧
    ∀ ref, timing (after.blocks ref) = timing (before.blocks ref)

theorem Frame.trans {first second third : DataSet} (one : Frame first second)
    (two : Frame second third) : Frame first third :=
  ⟨two.1.trans one.1, fun ref => (two.2 ref).trans (one.2 ref)⟩

theorem modify_blocks (ds : DataSet) (changed ref : BlockRef)
    (change : DeadlineBlock → DeadlineBlock) :
    (ds.modify changed change).blocks ref =
      if ref = changed then change (ds.blocks ref) else ds.blocks ref := by
  change Function.update ds.blocks changed (change (ds.blocks changed)) ref = _
  by_cases same : ref = changed
  · rw [same, Function.update_self, if_pos rfl]
  · rw [Function.update_of_ne same, if_neg same]

theorem frame_modify {change : DeadlineBlock → DeadlineBlock}
    (keeps : ∀ dblock, timing (change dblock) = timing dblock) (ds : DataSet)
    (changed : BlockRef) : Frame ds (ds.modify changed change) := by
  refine ⟨rfl, fun ref => ?_⟩
  rw [modify_blocks]
  split
  · exact keeps _
  · rfl

theorem frame_joinStackVariables (ds : DataSet) (db : String) (src : BlockRef) :
    Frame ds (ds.joinStackVariablesMissedDeadlines db src) := by
  have reads : Frame ds (ds.joinReadVariables db src) := by
    unfold joinReadVariables
    split
    · exact frame_modify (fun _ => by rfl) ds _
    · exact ⟨rfl, fun _ => rfl⟩
  have writes : ∀ ds : DataSet, Frame ds (ds.joinWriteVariables db src) := by
    intro ds
    unfold joinWriteVariables
    split
    · exact frame_modify (fun _ => by rfl) ds _
    · exact ⟨rfl, fun _ => rfl⟩
  unfold joinStackVariablesMissedDeadlines
  split
  · exact reads.trans (writes _)
  · exact ⟨rfl, fun _ => rfl⟩

end DataSet

structure Visit where
  db : String
  ref : BlockRef
  sequential : Bool

def Stats.visits (t : Stats) : List Visit :=
  t.lbreaks.entries.map (fun e => ⟨e.1, e.2, true⟩) ++
    t.loops.entries.map fun e => ⟨e.1, e.2, false⟩

def TestResults.visits (results : TestResults) : List Visit :=
  results.tests.entries.flatMap fun t => t.2.visits

theorem TestResults.visits_distinct (results : TestResults) :
    (results.visits.map Visit.ref).Nodup := by
  have refs : ∀ t : Stats, t.visits.map Visit.ref = t.refs := by
    intro t
    simp [Stats.visits, Stats.refs, Function.comp_def]
  have distinct := results.distinct
  simpa only [visits, List.map_flatMap, refs] using distinct

namespace DataSet

def visit (ds : DataSet) (v : Visit) : Except ScriptError DataSet :=
  if v.sequential then ds.joinLbreak v.db v.ref else ds.joinLoop v.db v.ref

theorem joinTest_eq (ds : DataSet) (t : Stats) : ds.joinTest t = t.visits.foldlM visit ds := by
  rw [joinTest, Stats.visits, List.foldlM_append, List.foldlM_map]
  congr
  funext ds
  rw [List.foldlM_map]
  rfl

theorem joinMissedDeadlines_eq (results : TestResults) :
    (loadFiles results).joinMissedDeadlines = results.visits.foldlM visit (loadFiles results) := by
  have tests : ∀ (entries : List (Σ _ : String, Stats)) (ds : DataSet),
      entries.foldlM (fun ds t => ds.joinTest t.2) ds =
        (entries.flatMap fun t => t.2.visits).foldlM visit ds := by
    intro entries
    induction entries with
    | nil => exact fun _ => rfl
    | cons t entries ih =>
      intro ds
      rw [List.foldlM_cons, List.flatMap_cons, List.foldlM_append, joinTest_eq]
      simp only [ih]
  exact tests results.tests.entries (loadFiles results)

end DataSet

namespace TestResults

open DataSet

variable (results : TestResults)

def misses (visits : List Visit) (db : String) : List Visit :=
  visits.filter fun v => v.db = db ∧ isMissed (results.blocks v.ref)

theorem mem_misses_iff {visits : List Visit} {db : String} {v : Visit} :
    v ∈ results.misses visits db ↔ v ∈ visits ∧ v.db = db ∧ isMissed (results.blocks v.ref) := by
  simp [misses]

theorem misses_concat (visits : List Visit) (v : Visit) (db : String) :
    results.misses (visits ++ [v]) db =
      if v.db = db ∧ isMissed (results.blocks v.ref) then results.misses visits db ++ [v]
      else results.misses visits db := by
  split <;> rename_i found <;> simp [misses, List.filter_append, found]

def counts (visits : List Visit) (db : String) (pc : Nat) : Set Int :=
  values ((results.misses visits db).map fun v => (results.blocks v.ref).pcs) pc

def Grows (seen : List Visit) (v : Visit) : Prop :=
  v.sequential = true ∧ isMissed (results.blocks v.ref) ∧
    ∃ first ∈ (results.misses seen v.db).head?, ∃ pc ∈ (results.blocks first.ref).pcs,
      ∃ count, (results.blocks v.ref).pcs.lookup pc = some count ∧
        ∀ old ∈ results.counts seen v.db pc, old < count

/-- The first block that was missed stands for all of them. It keeps its time, and of the
counts those of its own instructions are joined. -/
structure Joining (seen : List Visit) (ds : DataSet) : Prop where
  fresh : ∀ ref ∉ seen.map Visit.ref, timing (ds.blocks ref) = timing (results.blocks ref)
  table : ∀ db, ds.joinMissed.lookup db = (results.misses seen db).head?.map Visit.ref
  time : ∀ db, ∀ first ∈ (results.misses seen db).head?,
    (ds.blocks first.ref).wcExecutionTime = (results.blocks first.ref).wcExecutionTime
  own : ∀ db, ∀ first ∈ (results.misses seen db).head?, ∀ pc ∈ (results.blocks first.ref).pcs,
    Greatest (results.counts seen db pc) ((ds.blocks first.ref).pcs.lookup pc)
  other : ∀ db, ∀ first ∈ (results.misses seen db).head?, ∀ pc ∉ (results.blocks first.ref).pcs,
    (ds.blocks first.ref).pcs.lookup pc = none

theorem Joining.start : results.Joining [] (loadFiles results) where
  fresh _ _ := rfl
  table _ := rfl
  time _ _ none := nomatch none
  own _ _ none := nomatch none
  other _ _ none := nomatch none

variable {results} {seen : List Visit} {ds ds' : DataSet} {v : Visit}

theorem mem_of_first {db : String} {first : Visit}
    (found : first ∈ (results.misses seen db).head?) :
    first ∈ seen ∧ first.db = db ∧ isMissed (results.blocks first.ref) :=
  results.mem_misses_iff.mp (List.mem_of_mem_head? found)

theorem Joining.frame (joining : results.Joining seen ds) (frame : Frame ds ds') :
    results.Joining seen ds' := by
  have wc : ∀ ref, (ds'.blocks ref).wcExecutionTime = (ds.blocks ref).wcExecutionTime :=
    fun ref => congrArg (fun t => t.2.1) (frame.2 ref)
  have pcs : ∀ ref, (ds'.blocks ref).pcs = (ds.blocks ref).pcs :=
    fun ref => congrArg (fun t => t.2.2) (frame.2 ref)
  refine ⟨fun ref new => (frame.2 ref).trans (joining.fresh ref new), fun db => ?_,
    fun db first found => ?_, fun db first found pc member => ?_,
    fun db first found pc absent => ?_⟩
  · rw [frame.1, joining.table]
  · rw [wc, joining.time db first found]
  · rw [pcs]
    exact joining.own db first found pc member
  · rw [pcs]
    exact joining.other db first found pc absent

theorem Joining.met (joining : results.Joining seen ds)
    (met : ¬ isMissed (results.blocks v.ref)) : results.Joining (seen ++ [v]) ds := by
  have same : ∀ db, results.misses (seen ++ [v]) db = results.misses seen db := by
    intro db
    rw [misses_concat, if_neg (fun found => met found.2)]
  refine ⟨fun ref new => joining.fresh ref (by simp_all), ?_, ?_, ?_, ?_⟩ <;>
    simp only [counts, same]
  · exact joining.table
  · exact joining.time
  · exact joining.own
  · exact joining.other

/-- The first miss of a block is stored as it is. -/
theorem Joining.first (joining : results.Joining seen ds) (new : v.ref ∉ seen.map Visit.ref)
    (missed : isMissed (results.blocks v.ref)) (none : results.misses seen v.db = []) :
    results.Joining (seen ++ [v]) { ds with joinMissed := ds.joinMissed.insert v.db v.ref } := by
  have fresh := joining.fresh v.ref new
  simp only [timing, Prod.mk.injEq] at fresh
  have own : results.misses (seen ++ [v]) v.db = [v] := by
    rw [misses_concat, if_pos ⟨rfl, missed⟩, none, List.nil_append]
  have rest : ∀ db, db ≠ v.db → results.misses (seen ++ [v]) db = results.misses seen db := by
    intro db other
    rw [misses_concat, if_neg (fun found => other found.1.symm)]
  refine ⟨fun ref new => joining.fresh ref (by simp_all), fun db => ?_, fun db first found => ?_,
    fun db first found pc member => ?_, fun db first found pc absent => ?_⟩
  all_goals by_cases same : db = v.db
  · subst same
    rw [AList.lookup_insert, own]
    rfl
  · rw [AList.lookup_insert_ne same, rest db same, joining.table]
  · subst same
    rw [own] at found
    obtain rfl : v = first := Option.some_injective _ found
    exact fresh.2.1
  · exact joining.time db first (rest db same ▸ found)
  · subst same
    rw [own] at found
    obtain rfl : v = first := Option.some_injective _ found
    rw [counts, own, fresh.2.2]
    exact Greatest.lookup _ pc
  · rw [counts, rest db same]
    exact joining.own db first (rest db same ▸ found) pc member
  · subst same
    rw [own] at found
    obtain rfl : v = first := Option.some_injective _ found
    rw [fresh.2.2]
    exact AList.lookup_eq_none.mpr absent
  · exact joining.other db first (rest db same ▸ found) pc absent

theorem counts_concat (missed : isMissed (results.blocks v.ref)) (pc : Nat) :
    results.counts (seen ++ [v]) v.db pc =
      ((results.blocks v.ref).pcs.lookup pc).elim (results.counts seen v.db pc)
        (insert · (results.counts seen v.db pc)) := by
  rw [counts, misses_concat, if_pos ⟨rfl, missed⟩, List.map_append]
  exact Dictionary.values_concat _ _ pc

theorem Joining.lookup (joining : results.Joining seen ds) {db : String} {first : Visit}
    (found : first ∈ (results.misses seen db).head?) {pc : Nat}
    (member : pc ∈ (results.blocks first.ref).pcs) :
    ∃ top, (ds.blocks first.ref).pcs.lookup pc = some top ∧
      IsGreatest (results.counts seen db pc) top := by
  obtain ⟨count, own⟩ := Option.isSome_iff_exists.mp (AList.lookup_isSome.mpr member)
  refine (joining.own db first found pc member).exists_of_mem (v := count) ?_
  exact ⟨_, List.mem_map_of_mem (List.mem_of_mem_head? found), own⟩

/-- A further miss leaves the first block in its place, with the joined counts. -/
theorem Joining.again (joining : results.Joining seen ds)
    (distinct : ((seen ++ [v]).map Visit.ref).Nodup) (missed : isMissed (results.blocks v.ref))
    {first : Visit} (found : first ∈ (results.misses seen v.db).head?) {joined : Counts}
    (joins : Joins (ds.blocks first.ref).pcs (results.blocks v.ref).pcs joined)
    (table : ds'.joinMissed = ds.joinMissed)
    (kept : ∀ ref, ref ≠ v.ref → ref ≠ first.ref →
      timing (ds'.blocks ref) = timing (ds.blocks ref))
    (time : (ds'.blocks first.ref).wcExecutionTime = (ds.blocks first.ref).wcExecutionTime)
    (pcs : (ds'.blocks first.ref).pcs = joined) : results.Joining (seen ++ [v]) ds' := by
  obtain ⟨old, -, last⟩ := List.nodup_append.mp (List.map_append ▸ distinct)
  have earlier : ∀ w ∈ seen, w.ref ≠ v.ref := fun w member =>
    last w.ref (List.mem_map_of_mem member) v.ref (by simp)
  have member := mem_of_first found
  have own : (results.misses (seen ++ [v]) v.db).head? = some first := by
    rw [misses_concat, if_pos ⟨rfl, missed⟩, List.head?_append, found, Option.some_or]
  have rest : ∀ db, db ≠ v.db → results.misses (seen ++ [v]) db = results.misses seen db := by
    intro db other
    rw [misses_concat, if_neg (fun found => other found.1.symm)]
  have apart : ∀ db, db ≠ v.db → ∀ other ∈ (results.misses seen db).head?,
      timing (ds'.blocks other.ref) = timing (ds.blocks other.ref) := by
    intro db different other is
    have others := mem_of_first is
    refine kept other.ref (earlier other others.1) fun same => different ?_
    rw [← others.2.1, ← member.2.1, List.inj_on_of_nodup_map old others.1 member.1 same]
  refine ⟨fun ref new => ?_, fun db => ?_, fun db w is => ?_, fun db w is pc within => ?_,
    fun db w is pc absent => ?_⟩
  · rw [List.map_append, List.mem_append, not_or, List.map_singleton, List.mem_singleton] at new
    rw [kept ref new.2 fun same => new.1 (same ▸ List.mem_map_of_mem member.1)]
    exact joining.fresh ref new.1
  all_goals by_cases same : db = v.db
  · rw [table, joining.table, same, own, found]
  · rw [table, joining.table, rest db same]
  · subst same
    obtain rfl : first = w := Option.some_injective _ (own.symm.trans is)
    rw [time, joining.time v.db first found]
  · rw [rest db same] at is
    have keeps := congrArg (fun t => t.2.1) (apart db same w is)
    exact keeps.trans (joining.time db w is)
  · subst same
    obtain rfl : first = w := Option.some_injective _ (own.symm.trans is)
    obtain ⟨top, lookup, -⟩ := joining.lookup found within
    have greatest := joining.own v.db first found pc within
    rw [pcs, joins pc, counts_concat missed]
    cases (results.blocks v.ref).pcs.lookup pc with
    | none => exact greatest
    | some count =>
      have greater := greatest.add count
      rwa [lookup] at greater ⊢
  · rw [rest db same] at is
    have keeps : (ds'.blocks w.ref).pcs = (ds.blocks w.ref).pcs :=
      congrArg (fun t => t.2.2) (apart db same w is)
    rw [counts, rest db same, keeps]
    exact joining.own db w is pc within
  · subst same
    obtain rfl : first = w := Option.some_injective _ (own.symm.trans is)
    rw [pcs, joins pc, joining.other v.db first found pc absent]
    cases (results.blocks v.ref).pcs.lookup pc <;> rfl
  · rw [rest db same] at is
    have keeps : (ds'.blocks w.ref).pcs = (ds.blocks w.ref).pcs :=
      congrArg (fun t => t.2.2) (apart db same w is)
    rw [keeps]
    exact joining.other db w is pc absent

theorem Joining.grows_iff (joining : results.Joining seen ds)
    (missed : isMissed (results.blocks v.ref)) {first : Visit}
    (found : first ∈ (results.misses seen v.db).head?) :
    results.Grows seen v ↔
      v.sequential = true ∧
        DataSet.Grows (ds.blocks first.ref).pcs (results.blocks v.ref).pcs := by
  refine and_congr_right fun _ => ⟨?_, ?_⟩
  · rintro ⟨-, w, is, pc, within, count, own, above⟩
    obtain rfl : first = w := Option.some_injective _ (found.symm.trans is)
    obtain ⟨top, lookup, greatest⟩ := joining.lookup found within
    exact ⟨pc, top, count, lookup, own, above top greatest.1⟩
  · rintro ⟨pc, top, count, lookup, own, less⟩
    have within : pc ∈ (results.blocks first.ref).pcs := by
      by_contra absent
      rw [joining.other v.db first found pc absent] at lookup
      cases lookup
    refine ⟨missed, first, found, pc, within, count, own, fun old member => ?_⟩
    exact lt_of_le_of_lt (((joining.own v.db first found pc within).greatest top lookup).2 member)
      less

end TestResults

namespace DataSet

def joinOf (v : Visit) (joined src : Counts) : Except ScriptError Counts :=
  if v.sequential then joinPcs joined src else pure (joinCounts joined src)

theorem joinOf_cases (v : Visit) (joined src : Counts) :
    (v.sequential = true ∧ Grows joined src ∧
        joinOf v joined src = .error (.nameError "extime")) ∨
      ¬ (v.sequential = true ∧ Grows joined src) ∧
        ∃ result, joinOf v joined src = .ok result ∧ Joins joined src result := by
  unfold joinOf
  cases sequential : v.sequential with
  | false => exact Or.inr ⟨nofun, _, rfl, joins_joinCounts joined src⟩
  | true =>
    simp only [if_true, true_and]
    obtain ⟨grows, stops⟩ | ⟨stays, goes⟩ := joinPcs_cases joined src
    · exact Or.inl ⟨grows, stops⟩
    · exact Or.inr ⟨stays, joined, goes, joins_of_stays stays⟩

theorem visit_eq (ds : DataSet) (v : Visit) :
    ds.visit v = joinDblock (joinOf v) ds v.db v.ref := by
  unfold visit joinOf joinLbreak joinLoop
  split <;> rfl

section

variable {join : Counts → Counts → Except ScriptError Counts} {ds : DataSet} {db : String}
  {ref missed : BlockRef}

theorem joinInstructions_met (met : ¬ isMissed (ds.blocks ref)) :
    ds.joinInstructions join db ref = .ok ds := by
  simp only [joinInstructions, if_neg met]
  rfl

theorem joinInstructions_first (late : isMissed (ds.blocks ref))
    (none : ds.joinMissed.lookup db = none) :
    ds.joinInstructions join db ref =
      .ok { ds with joinMissed := ds.joinMissed.insert db ref } := by
  simp only [joinInstructions, if_pos late, none]
  rfl

theorem joinInstructions_error {error : ScriptError} (late : isMissed (ds.blocks ref))
    (found : ds.joinMissed.lookup db = some missed)
    (stops : join (ds.blocks missed).pcs (ds.blocks ref).pcs = .error error) :
    ds.joinInstructions join db ref = .error error := by
  simp only [joinInstructions, if_pos late, found, stops]
  rfl

theorem joinInstructions_again {joined : Counts} (different : missed ≠ ref)
    (late : isMissed (ds.blocks ref)) (found : ds.joinMissed.lookup db = some missed)
    (joins : join (ds.blocks missed).pcs (ds.blocks ref).pcs = .ok joined) :
    ∃ ds', ds.joinInstructions join db ref = .ok ds' ∧ ds'.joinMissed = ds.joinMissed ∧
      (∀ other, other ≠ ref → other ≠ missed → ds'.blocks other = ds.blocks other) ∧
      ds'.blocks missed = { ds.blocks missed with pcs := joined } := by
  have joins : join (ds.blocks missed).pcs (ds.blocks ref).pcs = pure joined := joins
  simp only [joinInstructions, if_pos late, found, joins, pure_bind]
  by_cases longer : (ds.blocks missed).wcExecutionTime > (ds.blocks ref).wcExecutionTime
  · rw [if_pos longer]
    refine ⟨_, rfl, rfl, fun other own first => ?_, ?_⟩
    · rw [modify_blocks, if_neg own, modify_blocks, if_neg first]
    · rw [modify_blocks, if_neg different, modify_blocks, if_pos rfl]
  · rw [if_neg longer]
    refine ⟨_, rfl, rfl, fun other own first => ?_, ?_⟩
    · rw [modify_blocks, if_neg first]
    · rw [modify_blocks, if_pos rfl]

end

end DataSet

namespace TestResults

open DataSet

variable {results : TestResults} {seen : List Visit} {ds : DataSet} {v : Visit}

/-- What one visit does: the script stops, or the blocks stay joined. -/
theorem Joining.visit (joining : results.Joining seen ds)
    (distinct : ((seen ++ [v]).map Visit.ref).Nodup) :
    (results.Grows seen v ∧ ∃ error, ds.visit v = .error error) ∨
      ¬ results.Grows seen v ∧
        ∃ ds', ds.visit v = .ok ds' ∧ results.Joining (seen ++ [v]) ds' := by
  have joining := joining.frame (frame_joinStackVariables ds v.db v.ref)
  rw [visit_eq, joinDblock]
  generalize ds.joinStackVariablesMissedDeadlines v.db v.ref = ds at joining
  have new : v.ref ∉ seen.map Visit.ref := by
    rw [List.map_append, List.map_singleton, ← List.concat_eq_append, List.nodup_concat] at distinct
    exact distinct.1
  have same := joining.fresh v.ref new
  have pcs : (ds.blocks v.ref).pcs = (results.blocks v.ref).pcs := congrArg (fun t => t.2.2) same
  by_cases missed : isMissed (results.blocks v.ref)
  · have late := (isMissed_congr same).mpr missed
    cases found : (results.misses seen v.db).head? with
    | none =>
      have table : ds.joinMissed.lookup v.db = none := by rw [joining.table, found]; rfl
      refine Or.inr ⟨?_, _, joinInstructions_first late table,
        joining.first new missed (List.head?_eq_none_iff.mp found)⟩
      rintro ⟨-, -, first, is, -⟩
      rw [found] at is
      cases is
    | some first =>
      have table : ds.joinMissed.lookup v.db = some first.ref := by rw [joining.table, found]; rfl
      have different : first.ref ≠ v.ref := fun is =>
        new (is ▸ List.mem_map_of_mem (mem_of_first found).1)
      rw [joining.grows_iff missed found, ← pcs]
      refine (joinOf_cases v (ds.blocks first.ref).pcs (ds.blocks v.ref).pcs).imp ?_ ?_
      · rintro ⟨sequential, grows, stops⟩
        exact ⟨⟨sequential, grows⟩, _, joinInstructions_error late table stops⟩
      · rintro ⟨stays, joined, goes, joins⟩
        obtain ⟨ds', done, missing, kept, first'⟩ :=
          joinInstructions_again different late table goes
        refine ⟨stays, ds', done, joining.again distinct missed found (pcs ▸ joins) missing
          (fun ref own other => by rw [kept ref own other]) ?_ ?_⟩
        · rw [first']
        · rw [first']
  · have met := mt (isMissed_congr same).mp missed
    refine Or.inr ⟨fun grows => missed grows.2.1, ds, joinInstructions_met met,
      joining.met missed⟩

/-- What the run of visits does. -/
theorem Joining.run {rest : List Visit} (joining : results.Joining seen ds)
    (distinct : ((seen ++ rest).map Visit.ref).Nodup) :
    ((∃ before v after, rest = before ++ v :: after ∧ results.Grows (seen ++ before) v) ∧
        ∃ error, rest.foldlM DataSet.visit ds = .error error) ∨
      (∀ before v after, rest = before ++ v :: after → ¬ results.Grows (seen ++ before) v) ∧
        ∃ ds', rest.foldlM DataSet.visit ds = .ok ds' ∧ results.Joining (seen ++ rest) ds' := by
  induction rest generalizing seen ds with
  | nil =>
    refine Or.inr ⟨fun before v after none => ?_, ds, rfl, by rwa [List.append_nil]⟩
    simp at none
  | cons v rest ih =>
    have split : seen ++ v :: rest = seen ++ [v] ++ rest := List.append_cons seen v rest
    rw [split] at distinct
    rw [List.foldlM_cons, split]
    have start : ((seen ++ [v]).map Visit.ref).Nodup := by
      rw [List.map_append] at distinct
      exact distinct.of_append_left
    obtain ⟨grows, error, stops⟩ | ⟨stays, ds', goes, next⟩ := joining.visit start
    · rw [stops]
      exact Or.inl ⟨⟨[], v, rest, rfl, by rwa [List.append_nil]⟩, error, rfl⟩
    · rw [goes]
      refine (ih next distinct).imp (And.imp_left ?_) (And.imp_left ?_)
      · rintro ⟨before, w, after, rfl, grows⟩
        exact ⟨v :: before, w, after, rfl, by rwa [List.append_cons]⟩
      · intro rest before w after is
        cases before with
        | nil =>
          obtain ⟨rfl, rfl⟩ := List.cons.inj is
          rwa [List.append_nil]
        | cons u before =>
          obtain ⟨rfl, rfl⟩ := List.cons.inj is
          rw [List.append_cons]
          exact rest before w after rfl

variable (results)

def times (visits : List Visit) (db : String) : Set Int :=
  {time | ∃ v ∈ results.misses visits db, (results.blocks v.ref).wcExecutionTime = time}

/-- The script ends, and every block that was missed has an entry with the greatest time
and, for each instruction, the greatest count. -/
def Joined (result : Except ScriptError DataSet) : Prop :=
  ∃ ds, result = .ok ds ∧ ∀ db, results.misses results.visits db ≠ [] →
    ∃ ref, ds.joinMissed.lookup db = some ref ∧
      IsGreatest (results.times results.visits db) (ds.blocks ref).wcExecutionTime ∧
      ∀ pc, (results.counts results.visits db pc).Nonempty →
        ∃ count, (ds.blocks ref).pcs.lookup pc = some count ∧
          IsGreatest (results.counts results.visits db pc) count

/-- Every block that is missed again took no longer than at its first miss and used no other
instructions. Where it is a sequential block, it used none of them more often than at every
earlier miss. -/
def FirstGreatest : Prop :=
  ∀ before v after, results.visits = before ++ v :: after → isMissed (results.blocks v.ref) →
    ∀ first ∈ (results.misses before v.db).head?,
      (results.blocks v.ref).wcExecutionTime ≤ (results.blocks first.ref).wcExecutionTime ∧
      ∀ pc count, (results.blocks v.ref).pcs.lookup pc = some count →
        pc ∈ (results.blocks first.ref).pcs ∧
          (v.sequential = true → ∃ old ∈ results.counts before v.db pc, count ≤ old)

variable {results}

theorem first_append {before : List Visit} (rest : List Visit) {db : String} {first : Visit}
    (found : first ∈ (results.misses before db).head?) :
    first ∈ (results.misses (before ++ rest) db).head? := by
  have found : (results.misses before db).head? = some first := found
  rw [misses] at found ⊢
  rw [List.filter_append, List.head?_append, found]
  rfl

theorem not_grows (greatest : results.FirstGreatest) {before after : List Visit} {v : Visit}
    (is : results.visits = before ++ v :: after) : ¬ results.Grows before v := by
  rintro ⟨sequential, missed, first, found, pc, -, count, own, above⟩
  obtain ⟨old, member, below⟩ :=
    ((greatest before v after is missed first found).2 pc count own).2 sequential
  exact absurd (above old member) (not_lt.mpr below)

theorem first_or_later {visits : List Visit} {db : String} {first v : Visit}
    (found : first ∈ (results.misses visits db).head?) (member : v ∈ results.misses visits db) :
    v = first ∨ ∃ before after, visits = before ++ v :: after ∧
      first ∈ (results.misses before v.db).head? := by
  obtain ⟨within, rfl, missed⟩ := results.mem_misses_iff.mp member
  obtain ⟨before, after, rfl⟩ := List.append_of_mem within
  cases earlier : (results.misses before v.db).head? with
  | none =>
    rw [List.append_cons] at found
    have own : v ∈ (results.misses (before ++ [v]) v.db).head? := by
      rw [misses_concat, if_pos ⟨rfl, missed⟩, List.head?_eq_none_iff.mp earlier]
      rfl
    exact Or.inl (Option.some_injective _ ((first_append after own).symm.trans found))
  | some w =>
    have same := first_append (v :: after) (Option.mem_def.mpr earlier)
    exact Or.inr ⟨before, after, rfl, (earlier.trans same.symm).trans found⟩

/-- The missed blocks are joined to the greatest times and counts exactly if the first miss of
each has the greatest time and all instructions, and the counts of a sequential block do not
grow. -/
theorem joined_iff (results : TestResults) :
    results.Joined (loadFiles results).joinMissedDeadlines ↔ results.FirstGreatest := by
  rw [joinMissedDeadlines_eq]
  have distinct : (([] ++ results.visits).map Visit.ref).Nodup := results.visits_distinct
  have run := (Joining.start results).run distinct
  simp only [List.nil_append] at run
  constructor
  · rintro ⟨ds, goes, entries⟩ before v after is missed first found
    obtain ⟨-, error, stops⟩ | ⟨stays, ds', goes', joining⟩ := run
    · cases goes.symm.trans stops
    · obtain rfl : ds = ds' := Except.ok.inj (goes.symm.trans goes')
      have whole : first ∈ (results.misses results.visits v.db).head? := is ▸ first_append _ found
      have member : v ∈ results.misses results.visits v.db :=
        results.mem_misses_iff.mpr ⟨by simp [is], rfl, missed⟩
      obtain ⟨ref, table, time, pcs⟩ := entries v.db (List.ne_nil_of_mem member)
      obtain rfl : first.ref = ref := by
        rw [joining.table, Option.mem_def.mp whole] at table
        exact Option.some_injective _ table
      rw [joining.time v.db first whole] at time
      refine ⟨time.2 ⟨v, member, rfl⟩, fun pc count own => ?_⟩
      have within : pc ∈ (results.blocks first.ref).pcs := by
        obtain ⟨top, lookup, -⟩ := pcs pc ⟨count, _, List.mem_map_of_mem member, own⟩
        by_contra absent
        rw [joining.other v.db first whole pc absent] at lookup
        cases lookup
      refine ⟨within, fun sequential => ?_⟩
      by_contra above
      refine stays before v after is ⟨sequential, missed, first, found, pc, within, count, own,
        fun old known => ?_⟩
      exact not_le.mp fun below => above ⟨old, known, below⟩
  · intro greatest
    obtain ⟨⟨before, v, after, is, grows⟩, -⟩ | ⟨-, ds, goes, joining⟩ := run
    · exact absurd grows (not_grows greatest is)
    · refine ⟨ds, goes, fun db some => ?_⟩
      obtain ⟨first, found⟩ := Option.ne_none_iff_exists'.mp (mt List.head?_eq_none_iff.mp some)
      refine ⟨first.ref, by rw [joining.table, found]; rfl, ?_, fun pc used => ?_⟩
      · rw [joining.time db first found]
        refine ⟨⟨first, List.mem_of_mem_head? found, rfl⟩, ?_⟩
        rintro _ ⟨v, member, rfl⟩
        obtain rfl | ⟨before, after, is, earlier⟩ := first_or_later found member
        · exact le_rfl
        · exact (greatest before v after is (results.mem_misses_iff.mp member).2.2 first earlier).1
      · obtain ⟨count, _, among, own⟩ := used
        obtain ⟨v, member, rfl⟩ := List.mem_map.mp among
        obtain rfl | ⟨before, after, is, earlier⟩ := first_or_later found member
        · exact joining.lookup found (AList.lookup_isSome.mp (Option.isSome_iff_exists.mpr ⟨_, own⟩))
        · exact joining.lookup found
            ((greatest before v after is (results.mem_misses_iff.mp member).2.2 first earlier).2 pc
              count own).1

def oneBlock (ref : BlockRef) : Stats where
  lbreaks := AList.singleton "filterxx1xx" ref
  loops := ∅

/-- Two tests miss the block, and the second takes longer. -/
def missedTwice : TestResults where
  tests := (AList.singleton "thread0-t2.pkl" (oneBlock 1)).insert "thread0-t1.pkl" (oneBlock 0)
  blocks ref :=
    { deadlineValue := 1
      wcExecutionTime := if ref = 0 then 10 else 20
      pcs := AList.singleton 0x40000000 (if ref = 0 then 1 else 2)
      dataReadAddresses := ∅
      dataWriteAddresses := ∅ }
  distinct := by decide

theorem missedTwice_stops : ¬ missedTwice.Joined (loadFiles missedTwice).joinMissedDeadlines := by
  have stops : (loadFiles missedTwice).joinMissedDeadlines = .error (.nameError "extime") := rfl
  rintro ⟨ds, goes, -⟩
  cases stops.symm.trans goes

end TestResults

end PretIss
