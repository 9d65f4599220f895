import Silta.RotationProtocol
import Silta.RunEnd

/-!
# The moment at which an exit is noticed

What a run leaves to the next start and to the unit, with the last lines read in the loop or left
in the pipes.
-/

namespace Silta

namespace Supervisor

open State (Paths)

/-- What a run leaves to the next start and to the unit. -/
structure Left where
  savedId : Option String
  marker : Bool
  rotation : State.RotationFile
  verdict : Verdict
  deriving DecidableEq, Repr

/-- What is left when the exit is noticed now, with these lines still in the pipes. -/
def left (cfg : Config) (start : Start) (s : Paths × Run) (drained : List (Line × Nat))
    (code : Int) : Left :=
  let leaving := s.2.leave cfg start (drained.map Prod.fst) code
  let p := Effect.applyAll s.1 leaving.2
  ⟨p.savedId, p.marker, p.rotation, settle cfg false leaving.1⟩

/-- The lines are read in the loop. -/
def readLines (cfg : Config) (s : Paths × Run) (lines : List (Line × Nat)) : Paths × Run :=
  runLoop cfg s (lines.map fun l ↦ .input l.1.toInput l.2)

/-- A rotation has left something on disk. -/
def HasRecords (p : Paths) : Prop := p.marker = true ∨ p.rotation ≠ .absent

instance (p : Paths) : Decidable (HasRecords p) := by unfold HasRecords; infer_instance

/-- The line that is read next decides what the run leaves: left in the pipe it would be the exit of
claude that does.  `refused` says whether claude refused the resume in any line. -/
def Decisive (cfg : Config) (start : Start) (refused : Bool) (code : Int) (s : Paths × Run) :
    Line × Nat → Prop
  | (.err _, _) => False
  | (.out event _, now) =>
    -- the end of an emergency's turn after its compaction takes the records with it
    (s.2.clears cfg event = true ∧ HasRecords s.1) ∨
      s.2.after = none ∧
        match s.2.endsWith cfg event with
        -- the run ends: with another exit code, or keeping the id that a refusal drops
        | some ended =>
          settle cfg false (.ended ended) ≠ settle cfg false (.exit code) ∨
            (start.resume && refused && !cfg.oneShot) = true ∧ s.1.savedId ≠ none
        -- the tracker ends the attempt, or takes the records away
        | none =>
          s.2.checked cfg event = true ∧
            (s.2.tracker.attemptEnds event now = true ∨
              s.2.tracker.compactionEnds event = true ∧ HasRecords s.1)

theorem left_of_some {cfg : Config} {start : Start} {s : Paths × Run} {outcome : Outcome}
    (h : s.2.after = some outcome) (drained : List (Line × Nat)) (code : Int) :
    left cfg start s drained code =
      ⟨s.1.savedId, s.1.marker, s.1.rotation, settle cfg false outcome⟩ := by
  simp [left, Run.leave, h, Effect.applyAll]

theorem left_of_none {cfg : Config} {start : Start} {s : Paths × Run} (h : s.2.after = none)
    (drained : List (Line × Nat)) (code : Int) :
    left cfg start s drained code =
      ⟨if start.resume && (s.2.noConversation || (drained.map Prod.fst).any Line.refuses) &&
          !cfg.oneShot then none else s.1.savedId,
        s.1.marker, s.1.rotation, settle cfg false (.exit code)⟩ := by
  simp only [left, Run.leave, h]
  split
  · rfl
  · rfl

theorem noConversation_out (cfg : Config) (r : Run) (event : Stream.Event) (written : Bool)
    (now : Nat) : (r.out cfg event written now).1.noConversation = r.noConversation := by
  show ((r.hear cfg event now).1.drive cfg event written now).1.noConversation = _
  rw [← Run.noConversation_hear cfg r event now]
  unfold Run.drive
  split
  · exact Run.act_noConversation _ _ _ _
  · rfl

theorem noConversation_err (r : Run) (line : String) :
    (r.err line).noConversation = (r.noConversation || Run.refuses line) := by
  unfold Run.err
  split
  next hrefuses => simp [hrefuses]
  next hnot => simp [hnot]

/-- What reading one output line shows to a later exit. -/
theorem readLines_out (cfg : Config) (s : Paths × Run) (event : Stream.Event) (written : Bool)
    (now : Nat) :
    let t := readLines cfg s [(.out event written, now)]
    t.1 = Effect.applyAll s.1 (s.2.out cfg event written now).2 ∧
      t.2.after = (s.2.out cfg event written now).1.after ∧
      t.2.noConversation = s.2.noConversation := by
  obtain ⟨hpaths, killed, hrun⟩ := handle_eq cfg s.1 s.2 (.out event written) now
  refine ⟨hpaths, ?_, ?_⟩
  · show (s.2.handle cfg s.1 (.out event written) now).1.after = _
    rw [hrun]
    rfl
  · show (s.2.handle cfg s.1 (.out event written) now).1.noConversation = _
    rw [hrun]
    exact noConversation_out cfg s.2 event written now

theorem left_err {cfg : Config} {start : Start} (s : Paths × Run) (line : String) (now : Nat)
    (rest : List (Line × Nat)) (code : Int) :
    left cfg start (readLines cfg s [(.err line, now)]) rest code =
      left cfg start s ((.err line, now) :: rest) code := by
  obtain ⟨killed, hreap⟩ := (s.2.err line).reap_eq
  have hpaths : (readLines cfg s [(.err line, now)]).1 = s.1 := applyAll_reap s.1 _
  have hrun : (readLines cfg s [(.err line, now)]).2 = { s.2.err line with killed := killed } :=
    hreap
  have hafter : (s.2.err line).after = s.2.after := by
    unfold Run.err
    split <;> rfl
  have hrefused : (s.2.err line).noConversation = (s.2.noConversation || Run.refuses line) := by
    unfold Run.err
    split
    next hrefuses => simp [hrefuses]
    next hnot => simp [hnot]
  cases h : s.2.after with
  | some outcome =>
    rw [left_of_some h, left_of_some (by rw [hrun]; exact hafter.trans h), hpaths]
  | none =>
    have hany : (((Line.err line, now) :: rest).map Prod.fst).any Line.refuses =
        (Run.refuses line || (rest.map Prod.fst).any Line.refuses) := rfl
    rw [left_of_none h, left_of_none (by rw [hrun]; exact hafter.trans h), hpaths, hrun, hany]
    show Left.mk (if start.resume && ((s.2.err line).noConversation || _) && _ then _ else _)
      _ _ _ = _
    rw [hrefused, Bool.or_assoc]

theorem savedId_cleared (p : Paths) (clears : Bool) :
    (if clears then p.clearRotation else p).savedId = p.savedId := by
  split
  · rfl
  · rfl

/-- Clearing the records makes a difference exactly where there are any. -/
theorem cleared_eq_iff (p : Paths) (clears : Bool) :
    ((if clears then p.clearRotation else p).marker = p.marker ∧
        (if clears then p.clearRotation else p).rotation = p.rotation) ↔
      ¬(clears = true ∧ HasRecords p) := by
  cases clears with
  | true =>
    simp only [HasRecords, true_and, not_or, Bool.not_eq_true, not_not, if_true]
    exact and_congr eq_comm eq_comm
  | false => simp

/-- A line decides exactly if it makes a difference whether it is read or left in the pipe. -/
theorem left_eq_iff (cfg : Config) (start : Start) {s : Paths × Run} (hs : s.2.Coherent)
    (line : Line × Nat) (rest : List (Line × Nat)) (code : Int) :
    left cfg start (readLines cfg s [line]) rest code = left cfg start s (line :: rest) code ↔
      ¬Decisive cfg start
        (s.2.noConversation || ((line :: rest).map Prod.fst).any Line.refuses) code s line := by
  obtain ⟨line, now⟩ := line
  cases line with
  | err line =>
    simp only [left_err, Decisive, not_false_eq_true]
  | out event written =>
    obtain ⟨hpaths, hafter, hrefused⟩ := readLines_out cfg s event written now
    have hreads : Reads cfg s.1 s.2 event now _ _ := (reads_out hs s.1 event written now).1
    rw [← hpaths, ← hafter] at hreads
    have hany : (((Line.out event written, now) :: rest).map Prod.fst).any Line.refuses =
        (rest.map Prod.fst).any Line.refuses := by
      simp [Line.refuses]
    have hcleared := cleared_eq_iff s.1 (s.2.clears cfg event)
    rw [hany]
    generalize readLines cfg s [(.out event written, now)] = t at *
    obtain ⟨q, r⟩ := t
    dsimp only at *
    generalize hout : r.after = outcome at hreads
    cases hreads with
    | ending h ready =>
      obtain ⟨outcome, hsome⟩ := Option.isSome_iff_exists.mp h
      rw [left_of_some (hout.trans hsome), left_of_some hsome]
      simp only [Decisive, hsome, reduceCtorEq, false_and, or_false, Left.mk.injEq,
        savedId_cleared, true_and, and_true]
      exact hcleared
    | ends ended h hends =>
      rw [left_of_some hout, left_of_none h, hany]
      simp only [Decisive, h, hends, true_and, not_or, not_not, Left.mk.injEq, savedId_cleared,
        ne_eq]
      rw [← hcleared]
      have hsaved : ∀ drops : Bool, s.1.savedId = (if drops then none else s.1.savedId) ↔
          ¬(drops = true ∧ s.1.savedId ≠ none) := by
        intro drops
        cases drops <;> simp
      rw [hsaved]
      tauto
    | rotates a notBefore ready h hends hchecked hattempt ha hmem =>
      -- the run is started again where the exit would have been the last word
      rw [left_of_some hout, left_of_none h]
      simp [Decisive, h, hends, hchecked, hattempt, settle]
    | compacts ready h hends hchecked hattempt hcompaction =>
      have hclears : s.2.clears cfg event = false := (Run.goesOn_hear h hends now).clears
      rw [left_of_none hout, left_of_none h, hrefused, hany]
      simp only [Decisive, h, hends, hchecked, hattempt, hcompaction, hclears, true_and, false_and,
        false_or, reduceCtorEq, Left.mk.injEq, and_true]
      have hrecords : (s.1.clearRotation.marker = s.1.marker ∧
          s.1.clearRotation.rotation = s.1.rotation) ↔ ¬HasRecords s.1 := by
        simpa using cleared_eq_iff s.1 true
      exact (and_iff_right rfl).trans hrecords
    | goesOn ready h hends hquiet =>
      have hclears : s.2.clears cfg event = false := (Run.goesOn_hear h hends now).clears
      rw [left_of_none hout, left_of_none h, hrefused, hany]
      refine iff_of_true rfl ?_
      simp only [Decisive, h, hends, hclears, true_and, reduceCtorEq, false_and, false_or]
      rintro ⟨hchecked, hdecides⟩
      obtain ⟨hattempt, hcompaction⟩ := hquiet hchecked
      simp [hattempt, hcompaction] at hdecides

theorem readLines_append (cfg : Config) (s : Paths × Run) (lines more : List (Line × Nat)) :
    readLines cfg s (lines ++ more) = readLines cfg (readLines cfg s lines) more := by
  simp [readLines, runLoop]

theorem coherent_readLines (cfg : Config) {s : Paths × Run} (hs : s.2.Coherent)
    (lines : List (Line × Nat)) : (readLines cfg s lines).2.Coherent :=
  coherent_runLoop hs _

/-- Read in the loop or left in the pipe, a refusal is noticed. -/
theorem noConversation_readLines (cfg : Config) (s : Paths × Run) (lines : List (Line × Nat)) :
    (readLines cfg s lines).2.noConversation =
      (s.2.noConversation || (lines.map Prod.fst).any Line.refuses) := by
  induction lines generalizing s with
  | nil => simp [readLines, runLoop]
  | cons line rest ih =>
    have hone : (readLines cfg s [line]).2.noConversation =
        (s.2.noConversation || line.1.refuses) := by
      obtain ⟨line, now⟩ := line
      cases line with
      | out event written =>
        rw [(readLines_out cfg s event written now).2.2]
        simp [Line.refuses]
      | err line =>
        obtain ⟨killed, hreap⟩ := (s.2.err line).reap_eq
        show (s.2.err line).reap.1.noConversation = _
        rw [hreap]
        exact noConversation_err s.2 line
    rw [← List.singleton_append, readLines_append, ih, hone]
    simp [Bool.or_assoc]

/-- What a run leaves does not depend on how many of the last lines are read before its exit is
noticed, exactly if none of them is decisive where it stands. -/
theorem left_same_iff (cfg : Config) (p : Paths) (start : Start) (es : List Effect)
    (notBefore : Option Nat) (now : Nat) (before : List Happening) (lines : List (Line × Nat))
    (code : Int) :
    let s := runLoop cfg (begun cfg p start es notBefore now) before
    let refused := s.2.noConversation || (lines.map Prod.fst).any Line.refuses
    (∀ k ≤ lines.length,
        left cfg start (readLines cfg s (lines.take k)) (lines.drop k) code =
          left cfg start s lines code) ↔
      ∀ k (h : k < lines.length),
        ¬Decisive cfg start refused code (readLines cfg s (lines.take k)) lines[k] := by
  intro s refused
  have hs : s.2.Coherent := coherent_runLoop (coherent_begun cfg p start es notBefore now) before
  -- one line more that is read before the exit is noticed
  have hone : ∀ k (h : k < lines.length),
      left cfg start (readLines cfg s (lines.take (k + 1))) (lines.drop (k + 1)) code =
          left cfg start (readLines cfg s (lines.take k)) (lines.drop k) code ↔
        ¬Decisive cfg start refused code (readLines cfg s (lines.take k)) lines[k] := by
    intro k h
    have hline := left_eq_iff cfg start (coherent_readLines cfg hs (lines.take k)) lines[k]
      (lines.drop (k + 1)) code
    have htake : lines.take (k + 1) = lines.take k ++ [lines[k]] :=
      (List.take_append_getElem h).symm
    have hdrop : lines[k] :: lines.drop (k + 1) = lines.drop k :=
      List.getElem_cons_drop h
    have hrefused : ((readLines cfg s (lines.take k)).2.noConversation ||
        ((lines.drop k).map Prod.fst).any Line.refuses) = refused := by
      rw [noConversation_readLines, Bool.or_assoc, ← List.any_append, ← List.map_append,
        List.take_append_drop]
    rwa [hdrop, hrefused, ← readLines_append, ← htake] at hline
  constructor
  · intro hsame k h
    exact (hone k h).mp ((hsame (k + 1) h).trans (hsame k h.le).symm)
  · intro hquiet k
    induction k with
    | zero => exact fun _ ↦ rfl
    | succ k ih =>
      intro hk
      exact ((hone k hk).mpr (hquiet k hk)).trans (ih (Nat.le_of_succ_le hk))

/-- A configuration for an example: no window check, no emergency. -/
def someConfig : Config where
  window := none
  windowWait := 60
  stopGrace := 90
  limits := Rotation.someLimits
  emergency := none

/-- A state directory with a saved conversation. -/
def savedPaths : Paths :=
  { Paths.empty with savedId := some "51209dfc", transcripts := ["51209dfc"] }

/-- What Claude Code prints when it refuses a resume: the line on stderr, and the error `result`. -/
def refusal : List (Line × Nat) :=
  [(.err "No conversation found with session ID: 51209dfc", 1),
    (.out (.result true false) false, 1)]

/-- The lines of a refused resume, read before the exit is noticed or drained after it. -/
theorem left_differs_refusal :
    let plan := planStart savedPaths "new"
    let s := begun someConfig savedPaths plan.1 plan.2 none 0
    ¬∀ k ≤ refusal.length,
      left someConfig plan.1 (readLines someConfig s (refusal.take k)) (refusal.drop k) 1 =
        left someConfig plan.1 s refusal 1 := by
  decide +kernel

end Supervisor

end Silta
