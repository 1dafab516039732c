import KeyValueStore.Lib.Runs
import KeyValueStore.TestDirector.Director

/-! # The director as a judge

The reference is the map of `kv_store.h`, from the answers of the store alone.  A call that is
refused with -ENOSPC leaves it as it is; the director stores the refused value in its checker
all the same, and counts the refusal of a deletion as a failure.  It judges a run exactly,
whatever `kv_get` answers next, if and only if no refusal does harm in this way
(`judges_exactly_iff`). -/

namespace KeyValueStore.Stress

open Runs

/-- The answer is one that `kv_store.h` promises of this map. -/
def Fits (mapping : Mapping) (it : Iteration) : Prop :=
  match it.call with
  | .set _ _ => it.ret = 0 ∨ it.ret = -ENOSPC
  | .get key => it.ret = 0 ∧ mapping key = some it.out.bytes ∨ it.ret = -ENOENT ∧ mapping key = none
  | .del key => it.ret = -ENOSPC ∨ it.ret = 0 ∧ mapping key ≠ none ∨
      it.ret = -ENOENT ∧ mapping key = none

/-- A `kv_get` answers with a value, or with -ENOENT, against the map. -/
def Contradicts (mapping : Mapping) (it : Iteration) : Prop :=
  match it.call with
  | .get key => it.ret = 0 ∧ mapping key ≠ some it.out.bytes ∨ it.ret = -ENOENT ∧ mapping key ≠ none
  | .set _ _ | .del _ => False

/-- The map afterwards: only calls that returned 0 change it. -/
def record (mapping : Mapping) (it : Iteration) : Mapping :=
  if it.ret = 0 then
    match it.call with
    | .set key v => Function.update mapping key (some v.bytes)
    | .get _ => mapping
    | .del key => Function.update mapping key none
  else mapping

/-- Some answer contradicts the map that the answers before it left. -/
def Contradicted : Mapping → List Iteration → Prop
  | _, [] => False
  | mapping, it :: its => Contradicts mapping it ∨ Contradicted (record mapping it) its

/-- The run of the director, from a map, comes to an end, and the count of failures is what
the answers deserve. -/
def JudgesFrom (mapping : Mapping) (director : TestDirector) (its : List Iteration) : Prop :=
  ∃ ret last, director.runStress its = .ok (ret, last) ∧
    (Admits record Fits mapping (director.executed its) → last.numberOfFailedOperations = 0) ∧
    (Contradicted mapping (director.executed its) → last.numberOfFailedOperations ≠ 0)

/-- At every point of a run the director has judged exactly so far, and so it will the next
`kv_get`, whatever that answers. -/
def JudgesThroughout (mapping : Mapping) (director : TestDirector) (its : List Iteration) : Prop :=
  ∀ n, JudgesFrom mapping director (its.take n) ∧
    ∀ next key, next.call = .get key → JudgesFrom mapping director (its.take n ++ [next])

/-- A refusal with -ENOSPC that does harm: that of a deletion, and that of a value that the
key does not have, if the checker has the memory to store it. -/
def Harmful (mapping : Mapping) (it : Iteration) : Prop :=
  it.ret = -ENOSPC ∧
    match it.call with
    | .set key v => mapping key ≠ some v.bytes ∧ it.allocs.Suffice (mapping key ≠ none)
    | .get _ => False
    | .del _ => True

/-- As long as the answers fit the map no refusal does harm. -/
def RefusalsHarmless : Mapping → List Iteration → Prop
  | _, [] => True
  | mapping, it :: its =>
    Fits mapping it → ¬ Harmful mapping it ∧ RefusalsHarmless (record mapping it) its

/-- Nothing is counted, and the checker has the map. -/
structure Synced (mapping : Mapping) (director : TestDirector) : Prop where
  sound : director.checker.Sound
  copy : director.checker.copy = mapping
  unfailed : director.numberOfFailedOperations = 0

/-! ## One operation -/

section Operation

variable {mapping : Mapping} {it : Iteration}

theorem not_contradicts (fits : Fits mapping it) : ¬ Contradicts mapping it := by
  have different : -ENOENT ≠ 0 := by decide
  revert fits
  cases asked : it.call with
  | set _ _ | del _ => simp [Contradicts, asked]
  | get key =>
    simp only [Fits, Contradicts, asked]
    rintro (⟨code, same⟩ | ⟨code, absent⟩) (⟨code', other⟩ | ⟨code', present⟩)
    · exact other same
    · omega
    · omega
    · exact present absent

/-- What does not fit is counted. -/
theorem counted_of_not_fits (unfit : ¬ Fits mapping it) : Counted mapping it := by
  revert unfit
  cases asked : it.call with
  | set _ _ => simp [Fits, Counted, asked]
  | get _ => simp only [Fits, Counted, asked, imp_self]
  | del _ =>
    simp only [Fits, Counted, asked]
    exact fun unfit counted => unfit (.inr counted)

theorem not_counted_of_fits (fits : Fits mapping it) (harmless : ¬ Harmful mapping it) :
    ¬ Counted mapping it := by
  revert fits harmless
  cases asked : it.call with
  | set _ _ => simp only [Fits, Counted, asked]; omega
  | get _ => simp only [Fits, Counted, asked, not_not]; exact fun fits _ => fits
  | del _ =>
    simp only [Fits, Counted, Harmful, asked, not_not, and_true]
    exact fun fits refused => fits.resolve_left refused

/-- What the checker stores was accepted, or refused for want of space. -/
theorem fits_of_lacksMemory (lacks : LacksMemory mapping it) : Fits mapping it := by
  revert lacks
  cases asked : it.call with
  | set _ _ => simp only [LacksMemory, Fits, asked]; exact And.left
  | get _ | del _ => simp [LacksMemory, asked]

/-- The checker follows the map. -/
theorem note_eq_record (fits : Fits mapping it) (harmless : ¬ Harmful mapping it)
    (memory : ¬ LacksMemory mapping it) : note mapping it = record mapping it := by
  have different : -ENOENT ≠ 0 ∧ -ENOSPC ≠ 0 := by decide
  revert fits harmless memory
  cases asked : it.call with
  | set key v =>
    simp only [Fits, Harmful, LacksMemory, note, record, asked]
    intro code harmless memory
    rw [if_pos code]
    rcases code with code | refused
    · rw [if_pos code]
    · have failed : it.ret ≠ 0 := by omega
      have suffice : it.allocs.Suffice (mapping key ≠ none) :=
        not_not.mp fun lacks => memory ⟨.inr refused, lacks⟩
      have same : mapping key = some v.bytes :=
        not_not.mp fun other => harmless ⟨refused, other, suffice⟩
      rw [if_neg failed, Function.update_eq_self_iff, same]
  | get _ => simp only [note, record, asked, ite_self, implies_true]
  | del key =>
    simp only [Fits, Harmful, note, record, asked, and_true]
    rintro (refused | ⟨code, _⟩ | ⟨code, absent⟩) harmless _
    · exact absurd refused harmless
    · rw [if_pos (.inl code), if_pos code]
    · have failed : it.ret ≠ 0 := by omega
      rw [if_pos (.inr code), if_neg failed, Function.update_eq_self_iff, absent]

end Operation

/-! ## A run that is judged exactly -/

section Run

variable {mapping : Mapping} {director next : TestDirector} {it : Iteration} {its : List Iteration}

theorem runStress_cons (returned : director.op it = .ok (0, next)) :
    director.runStress (it :: its) = next.countOperation.runStress its := by
  simp only [TestDirector.runStress, returned, bind, Except.bind, if_neg (not_not.mpr rfl)]

theorem executed_cons (returned : director.op it = .ok (0, next)) :
    director.executed (it :: its) = it :: next.countOperation.executed its := by
  simp only [TestDirector.executed, returned, if_pos]

/-- The run ends where the checker has no memory. -/
theorem runStress_lacksMemory (sound : director.checker.Sound)
    (lacks : LacksMemory director.checker.copy it) :
    director.runStress (it :: its) = .ok (-ENOMEM, director) ∧
      director.executed (it :: its) = [it] := by
  have returned := TestDirector.op_lacksMemory sound lacks
  constructor
  · simp [TestDirector.runStress, returned, bind, Except.bind, pure, Except.pure, ENOMEM]
  · simp [TestDirector.executed, returned, ENOMEM]

/-- What is counted stays counted. -/
theorem runStress_failed : ∀ (its : List Iteration) {director : TestDirector},
    director.checker.Sound → director.numberOfFailedOperations ≠ 0 →
    ∃ ret last, director.runStress its = .ok (ret, last) ∧ last.numberOfFailedOperations ≠ 0
  | [], director, _, failed => ⟨0, director, rfl, failed⟩
  | it :: its, director, sound, failed => by
    by_cases memory : LacksMemory director.checker.copy it
    · exact ⟨-ENOMEM, director, (runStress_lacksMemory sound memory).1, failed⟩
    · obtain ⟨next, returned, judged⟩ := TestDirector.op_spec it sound memory
      have soundAfter : next.countOperation.checker.Sound := judged.sound
      have failedAfter : next.countOperation.numberOfFailedOperations ≠ 0 := by
        change next.numberOfFailedOperations ≠ 0
        rcases judged.failed with ⟨_, count⟩ | ⟨_, count⟩ <;> omega
      rw [runStress_cons returned]
      exact runStress_failed its soundAfter failedAfter

/-- After an answer that fits, the rest decides. -/
theorem judgesFrom_cons (returned : director.op it = .ok (0, next)) (fits : Fits mapping it) :
    JudgesFrom mapping director (it :: its) ↔
      JudgesFrom (record mapping it) next.countOperation its := by
  simp only [JudgesFrom, runStress_cons returned, executed_cons returned, Admits, Contradicted,
    fits, not_contradicts fits, true_and, false_or]

/-- After one that does not fit the run is a failure, and counted as one. -/
theorem judgesFrom_of_not_fits (synced : Synced mapping director) (unfit : ¬ Fits mapping it)
    (its : List Iteration) : JudgesFrom mapping director (it :: its) := by
  have counted : Counted director.checker.copy it := synced.copy ▸ counted_of_not_fits unfit
  have memory : ¬ LacksMemory director.checker.copy it := fun lacks =>
    unfit (fits_of_lacksMemory (synced.copy ▸ lacks))
  obtain ⟨next, returned, judged⟩ := TestDirector.op_spec it synced.sound memory
  have failed : next.countOperation.numberOfFailedOperations ≠ 0 := by
    change next.numberOfFailedOperations ≠ 0
    rw [judged.count counted]
    exact Nat.succ_ne_zero _
  have sound : next.countOperation.checker.Sound := judged.sound
  obtain ⟨ret, last, rest, failedLast⟩ := runStress_failed its sound failed
  refine ⟨ret, last, (runStress_cons returned).trans rest, ?_, fun _ => failedLast⟩
  rw [executed_cons returned]
  exact fun admits => absurd admits.1 unfit

/-- A value that the checker has no memory to store ends a run without a failure. -/
theorem judgesFrom_of_lacksMemory (synced : Synced mapping director)
    (lacks : LacksMemory mapping it) (its : List Iteration) :
    JudgesFrom mapping director (it :: its) := by
  have ends := @runStress_lacksMemory director it its synced.sound (synced.copy ▸ lacks)
  refine ⟨-ENOMEM, director, ends.1, fun _ => synced.unfailed, ?_⟩
  rw [ends.2]
  rintro (contradicts | none)
  · exact absurd contradicts (not_contradicts (fits_of_lacksMemory lacks))
  · exact none.elim

theorem judgesFrom_nil (synced : Synced mapping director) : JudgesFrom mapping director [] :=
  ⟨0, director, rfl, fun _ => synced.unfailed, False.elim⟩

/-- An answer that fits, and does no harm, leaves nothing counted. -/
theorem Synced.step (synced : Synced mapping director) (fits : Fits mapping it)
    (harmless : ¬ Harmful mapping it) (memory : ¬ LacksMemory mapping it) :
    ∃ next, director.op it = .ok (0, next) ∧ Synced (record mapping it) next.countOperation := by
  obtain ⟨next, returned, judged⟩ :=
    TestDirector.op_spec it synced.sound (synced.copy.symm ▸ memory)
  have copied := judged.copy
  have passed : ¬ Counted director.checker.copy it :=
    synced.copy.symm ▸ not_counted_of_fits fits harmless
  rw [synced.copy] at copied
  refine ⟨next, returned, judged.sound, ?_, ?_⟩
  · exact copied.trans (note_eq_record fits harmless memory)
  · exact (judged.pass passed).trans synced.unfailed

/-- Whatever `kv_get` answers. -/
theorem judgesFrom_get (synced : Synced mapping director) {key : UInt64}
    (asked : it.call = .get key) : JudgesFrom mapping director [it] := by
  by_cases fits : Fits mapping it
  · have harmless : ¬ Harmful mapping it := by simp [Harmful, asked]
    have memory : ¬ LacksMemory mapping it := by simp [LacksMemory, asked]
    obtain ⟨next, returned, synced'⟩ := synced.step fits harmless memory
    exact (judgesFrom_cons returned fits).mpr (judgesFrom_nil synced')
  · exact judgesFrom_of_not_fits synced fits []

/-- The runs that stand or fall with the run of the other iterations. -/
theorem judgesThroughout_cons (synced : Synced mapping director) (fits : Fits mapping it)
    (returned : director.op it = .ok (0, next)) :
    JudgesThroughout mapping director (it :: its) ↔
      JudgesThroughout (record mapping it) next.countOperation its := by
  constructor
  · intro judges n
    have later := judges (n + 1)
    simpa only [List.take_succ_cons, List.cons_append, judgesFrom_cons returned fits] using later
  · intro judges n
    cases n with
    | zero =>
      exact ⟨judgesFrom_nil synced, fun _ _ asked => judgesFrom_get synced asked⟩
    | succ n =>
      simpa only [List.take_succ_cons, List.cons_append, judgesFrom_cons returned fits]
        using judges n

/-- The first iteration alone decides how the run is judged. -/
theorem judgesThroughout_of_first (synced : Synced mapping director)
    (first : ∀ its, JudgesFrom mapping director (it :: its)) :
    JudgesThroughout mapping director (it :: its)
  | 0 => ⟨judgesFrom_nil synced, fun _ _ asked => judgesFrom_get synced asked⟩
  | n + 1 => ⟨first (its.take n), fun next _ _ => first (its.take n ++ [next])⟩

/-- By induction on the run, from a director in step with the map. -/
theorem judgesThroughout_of_harmless : ∀ (its : List Iteration) {mapping : Mapping}
    {director : TestDirector}, Synced mapping director →
    RefusalsHarmless mapping (director.executed its) → JudgesThroughout mapping director its
  | [], _, _, synced, _ => fun n => by
    rw [List.take_nil]
    exact ⟨judgesFrom_nil synced, fun _ _ asked => judgesFrom_get synced asked⟩
  | it :: its, mapping, director, synced, harmless => by
    by_cases fits : Fits mapping it
    · by_cases lacks : LacksMemory mapping it
      · exact judgesThroughout_of_first synced (judgesFrom_of_lacksMemory synced lacks)
      · obtain ⟨next, returned, synced'⟩ := synced.step fits (harmless fits).1 lacks
        rw [executed_cons returned] at harmless
        rw [judgesThroughout_cons synced fits returned]
        exact judgesThroughout_of_harmless its synced' (harmless fits).2
    · exact judgesThroughout_of_first synced (judgesFrom_of_not_fits synced fits)

/-! ## A refusal that does harm -/

/-- `kv_get` of the same key, answered with `v`. -/
def Iteration.getBack (it : Iteration) (v : Value) : Iteration :=
  { it with operation := 3, ret := 0, out := v }

theorem call_getBack {key : UInt64} {v : Value} (asked : it.call = .set key v) :
    (it.getBack v).call = .get key := by
  unfold Iteration.call at asked
  cases chosen : selectOperation it.operation with
  | doSet =>
    simp only [chosen, Call.set.injEq] at asked
    obtain ⟨rfl, _⟩ := asked
    rfl
  | doGet | doDel => simp [chosen] at asked

theorem judgesFrom_singleton (returned : director.op it = .ok (0, next)) :
    JudgesFrom mapping director [it] ↔
      (Fits mapping it → next.numberOfFailedOperations = 0) ∧
        (Contradicts mapping it → next.numberOfFailedOperations ≠ 0) := by
  have run : director.runStress [it] = .ok (0, next.countOperation) := runStress_cons returned
  have executed : director.executed [it] = [it] := executed_cons returned
  constructor
  · rintro ⟨ret, last, ended, fitting, contradicting⟩
    rw [run] at ended
    cases ended
    rw [executed] at fitting contradicting
    exact ⟨fun fits => fitting ⟨fits, trivial⟩, fun contradicts => contradicting (.inl contradicts)⟩
  · rintro ⟨fitting, contradicting⟩
    refine ⟨0, next.countOperation, run, ?_⟩
    rw [executed]
    exact ⟨fun admits => fitting admits.1, fun contradicted =>
      contradicting (contradicted.resolve_right id)⟩

/-- The refusal of a deletion is counted. -/
theorem not_judgesFrom_del (synced : Synced mapping director) {key : UInt64}
    (asked : it.call = .del key) (refused : it.ret = -ENOSPC) :
    ¬ JudgesFrom mapping director [it] := by
  intro judges
  have codes : -ENOSPC ≠ 0 ∧ -ENOSPC ≠ -ENOENT := by decide
  have fits : Fits mapping it := by simp [Fits, asked, refused]
  have counted : Counted director.checker.copy it := by simp [Counted, asked, refused, codes]
  have memory : ¬ LacksMemory director.checker.copy it := by simp [LacksMemory, asked]
  obtain ⟨next, returned, judged⟩ := TestDirector.op_spec it synced.sound memory
  have unfailed := ((judgesFrom_singleton returned).mp judges).1 fits
  rw [judged.count counted] at unfailed
  exact Nat.succ_ne_zero _ unfailed

/-- The refused value comes to light when `kv_get` answers with it. -/
theorem not_judgesFrom_getBack (synced : Synced mapping director) {key : UInt64} {v : Value}
    (asked : it.call = .set key v) (refused : it.ret = -ENOSPC)
    (other : mapping key ≠ some v.bytes) (suffice : it.allocs.Suffice (mapping key ≠ none)) :
    ¬ JudgesFrom mapping director [it, it.getBack v] := by
  intro judges
  have gets := call_getBack asked
  have fits : Fits mapping it := by simp [Fits, asked, refused]
  have passed : ¬ Counted director.checker.copy it := by simp [Counted, asked, refused]
  have memory : ¬ LacksMemory director.checker.copy it := by
    simp [LacksMemory, asked, refused, synced.copy, suffice]
  obtain ⟨next, returned, judged⟩ := TestDirector.op_spec it synced.sound memory
  have unfailed : next.numberOfFailedOperations = 0 := (judged.pass passed).trans synced.unfailed
  have held : next.countOperation.checker.copy key = some v.bytes := by
    change next.checker.copy key = some v.bytes
    rw [judged.copy]
    simp [note, asked, refused]
  have sound : next.countOperation.checker.Sound := judged.sound
  obtain ⟨last, returned', judged'⟩ := TestDirector.op_spec (it.getBack v) sound
    (by simp [LacksMemory, gets])
  have passed' : ¬ Counted next.countOperation.checker.copy (it.getBack v) := by
    simp only [Counted, gets]
    exact not_not.mpr (.inl ⟨rfl, held⟩)
  have unchanged : record mapping it = mapping := by
    rw [record, if_neg (by rw [refused]; decide)]
  have contradicts : Contradicts mapping (it.getBack v) := by
    simp only [Contradicts, gets]
    exact .inl ⟨rfl, other⟩
  rw [judgesFrom_cons returned fits, unchanged, judgesFrom_singleton returned'] at judges
  exact judges.2 contradicts ((judged'.pass passed').trans unfailed)

theorem not_harmful_of_judges (synced : Synced mapping director)
    (judges : JudgesThroughout mapping director (it :: its)) : ¬ Harmful mapping it := by
  rintro ⟨refused, harm⟩
  cases asked : it.call with
  | get _ => simp [asked] at harm
  | del _ => exact not_judgesFrom_del synced asked refused (judges 1).1
  | set key v =>
    simp only [asked] at harm
    exact not_judgesFrom_getBack synced asked refused harm.1 harm.2
      ((judges 1).2 (it.getBack v) key (call_getBack asked))

theorem harmless_of_judgesThroughout : ∀ (its : List Iteration) {mapping : Mapping}
    {director : TestDirector}, Synced mapping director → JudgesThroughout mapping director its →
    RefusalsHarmless mapping (director.executed its)
  | [], _, _, _, _ => trivial
  | it :: its, mapping, director, synced, judges => by
    have harmless : ¬ Harmful mapping it := not_harmful_of_judges synced judges
    by_cases lacks : LacksMemory director.checker.copy it
    · rw [(runStress_lacksMemory synced.sound lacks).2]
      exact fun _ => ⟨harmless, trivial⟩
    · obtain ⟨next, returned, _⟩ := TestDirector.op_spec it synced.sound lacks
      rw [executed_cons returned]
      intro fits
      obtain ⟨next', returned', synced'⟩ := synced.step fits harmless (synced.copy ▸ lacks)
      obtain rfl : next' = next := by
        rw [returned'] at returned
        cases returned
        rfl
      exact ⟨harmless, harmless_of_judgesThroughout its synced'
        ((judgesThroughout_cons synced fits returned).mp judges)⟩

end Run

/-! ## From the start -/

theorem Synced.init {allocated allocated' : Bool} {checker : KvChecker} {director : TestDirector}
    (made : KvChecker.init allocated = .ok checker)
    (started : TestDirector.init allocated' 0 checker = .ok (0, director)) :
    Synced Mapping.empty director := by
  obtain ⟨sound, copy⟩ := KvChecker.Sound.empty made
  cases allocated' with
  | false => cases started
  | true =>
    cases started
    exact ⟨sound, copy, rfl⟩

/-- From the start of the stress test, every point of the run and every answer of the next
`kv_get` is judged exactly if and only if no refusal does harm. -/
theorem judges_exactly_iff {allocated allocated' : Bool} {checker : KvChecker}
    {director : TestDirector} (made : KvChecker.init allocated = .ok checker)
    (started : TestDirector.init allocated' 0 checker = .ok (0, director)) (its : List Iteration) :
    JudgesThroughout Mapping.empty director its ↔
      RefusalsHarmless Mapping.empty (director.executed its) :=
  ⟨harmless_of_judgesThroughout its (Synced.init made started),
    judgesThroughout_of_harmless its (Synced.init made started)⟩

theorem executed_subset : ∀ (its : List Iteration) {director : TestDirector} {it : Iteration},
    it ∈ director.executed its → it ∈ its
  | [], _, _, got => got
  | first :: its, director, it, got => by
    simp only [TestDirector.executed, List.mem_cons] at got ⊢
    rcases got with rfl | got
    · exact .inl rfl
    · right
      split at got
      · split at got
        · exact executed_subset its got
        · cases got
      · cases got

theorem refusalsHarmless_of_room : ∀ (its : List Iteration) {mapping : Mapping},
    (∀ it ∈ its, it.ret = -ENOSPC → ∃ key, it.call = .get key) → RefusalsHarmless mapping its
  | [], _, _ => trivial
  | it :: its, mapping, room => by
    intro _
    refine ⟨?_, refusalsHarmless_of_room its fun it' member => room it' (.tail _ member)⟩
    rintro ⟨refused, harm⟩
    obtain ⟨key, asked⟩ := room it (.head _) refused
    simp [asked] at harm

/-- A store that never refuses for want of space is judged exactly. -/
theorem judgesThroughout_of_room {allocated allocated' : Bool} {checker : KvChecker}
    {director : TestDirector} (made : KvChecker.init allocated = .ok checker)
    (started : TestDirector.init allocated' 0 checker = .ok (0, director)) {its : List Iteration}
    (room : ∀ it ∈ its, it.ret = -ENOSPC → ∃ key, it.call = .get key) :
    JudgesThroughout Mapping.empty director its :=
  judgesThroughout_of_harmless its (Synced.init made started)
    (refusalsHarmless_of_room _ fun it member => room it (executed_subset its member))

/-! ## A full store -/

/-- `kv_set` of one byte under key 0, stored. -/
def Iteration.stored : Iteration where
  operation := 0
  key := 0
  size := 0
  byte := fun _ => 0
  ret := 0
  out := Value.one
  allocs := ⟨true, true, true⟩

def Iteration.refused : Iteration := { Iteration.stored with ret := -ENOSPC }

/-- `kv_get` of key 0 from an empty store. -/
def Iteration.missing : Iteration := { Iteration.stored with operation := 3, ret := -ENOENT }

/-- `kv_del` of key 0 by a full store. -/
def Iteration.notDeleted : Iteration := { Iteration.stored with operation := 5, ret := -ENOSPC }

def TestDirector.fresh : TestDirector := ⟨⟨∅⟩, 0, 0, 0, 0⟩

theorem judges_exactly_iff_stored :
    JudgesThroughout Mapping.empty TestDirector.fresh [.stored, .refused] := by
  have harmless : RefusalsHarmless Mapping.empty
      (TestDirector.fresh.executed [.stored, .refused]) := by
    refine fun _ => ⟨fun harmful => ?_, fun _ => ⟨fun harmful => ?_, trivial⟩⟩
    · exact absurd harmful.1 (by decide)
    · exact harmful.2.1 rfl
  exact (judges_exactly_iff (rfl : KvChecker.init true = .ok ⟨∅⟩)
    (rfl : TestDirector.init true 0 ⟨∅⟩ = .ok (0, TestDirector.fresh)) _).mpr harmless

/-- A store that keeps to the map is found at fault, by a value that it refused or by the
refusal of a deletion; one that returns the refused value is not. -/
theorem full_store_judged_wrong :
    (Admits record Fits Mapping.empty [.refused, .missing] ∧
      ∃ last, TestDirector.fresh.runStress [.refused, .missing] = .ok (0, last) ∧
        last.numberOfFailedOperations = 1) ∧
    (Admits record Fits Mapping.empty [.notDeleted] ∧
      ∃ last, TestDirector.fresh.runStress [.notDeleted] = .ok (0, last) ∧
        last.numberOfFailedOperations = 1) ∧
    (Contradicted Mapping.empty [.refused, Iteration.refused.getBack ⟨1, [0], by decide⟩] ∧
      ∃ last, TestDirector.fresh.runStress
          [.refused, Iteration.refused.getBack ⟨1, [0], by decide⟩] = .ok (0, last) ∧
        last.numberOfFailedOperations = 0) := by
  refine ⟨⟨⟨.inr rfl, .inr ⟨rfl, rfl⟩, trivial⟩, _, rfl, rfl⟩,
    ⟨⟨.inl rfl, trivial⟩, _, rfl, rfl⟩, .inr (.inl (.inl ⟨rfl, ?_⟩)), _, rfl, rfl⟩
  intro same
  cases same

end KeyValueStore.Stress
