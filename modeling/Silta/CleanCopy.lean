import Mathlib.Data.String.Basic
import Mathlib.Order.Monotone.Basic
import Silta.Copies
import Silta.Lib.Newest
import Silta.Snapshot

/-!
# The clean copy of a rotation

Every snapshot prunes the ones that are old by name.  What that leaves of the copy before the
handoff while its rotation goes on, over all that the supervisor does.
-/

namespace Silta

namespace Supervisor

open Memory (snapshotName)
open Rotation (Moment)
open State (Paths)

/-- A name that the pruning counts. -/
def isSnapshot (name : String) : Bool :=
  "-before-handoff".toList.isSuffixOf name.toList ||
    "-after-handoff".toList.isSuffixOf name.toList

/-- The names under `backups` that the pruning counts. -/
def snapshots (b : Finset String) : Finset String := b.filter fun name ↦ isSnapshot name = true

/-- The names under `backups` after a snapshot: the new one is added, and all that are counted but
the last `2 * keep` are removed. -/
def takeSnapshot (keep : Nat) (name : String) (b : Finset String) : Finset String :=
  insert name b \ ((snapshots (insert name b)).sort.reverse.drop (2 * keep)).toFinset

def takeSnapshots (keep : Nat) (names : List String) (b : Finset String) : Finset String :=
  names.foldl (fun b name ↦ takeSnapshot keep name b) b

/-- The names of the snapshots among some effects, by the time of each effect. -/
def snapshotNames (clock : Nat → String) : Nat → List Effect → List String
  | _, [] => []
  | i, .snapshot moment :: es => snapshotName (clock i) moment :: snapshotNames clock (i + 1) es
  | i, _ :: es => snapshotNames clock (i + 1) es

/-- The names under `backups` after these effects. -/
def backups (keep : Nat) (clock : Nat → String) (b : Finset String) (es : List Effect) :
    Finset String :=
  takeSnapshots keep (snapshotNames clock 0 es) b

/-! ## What the pruning leaves -/

/-- The counted names that are later than a copy. -/
def laterSnapshots (b : Finset String) (copy : String) : Finset String :=
  (snapshots b).filter fun name ↦ copy < name

section Pruning

variable {keep : Nat} {b : Finset String} {copy name : String}

theorem mem_laterSnapshots {x : String} :
    x ∈ laterSnapshots b copy ↔ x ∈ b ∧ isSnapshot x = true ∧ copy < x := by
  rw [laterSnapshots, snapshots, Finset.mem_filter, Finset.mem_filter, and_assoc]

theorem mem_takeSnapshot_iff {x : String} (hx : isSnapshot x = true) :
    x ∈ takeSnapshot keep name b ↔
      x ∈ insert name b ∧ (laterSnapshots (insert name b) x).card < 2 * keep := by
  rw [takeSnapshot, Finset.mem_sdiff, List.mem_toFinset, Newest.mem_drop_reverse_iff]
  refine and_congr_right fun hmem ↦ ?_
  have hcounted : x ∈ snapshots (insert name b) := Finset.mem_filter.mpr ⟨hmem, hx⟩
  rw [and_iff_right hcounted, not_le]
  exact Iff.rfl

/-- A copy that is left has all the later ones beside it. -/
theorem laterSnapshots_takeSnapshot (hcopy : isSnapshot copy = true)
    (hleft : copy ∈ takeSnapshot keep name b) :
    laterSnapshots (takeSnapshot keep name b) copy = laterSnapshots (insert name b) copy := by
  have hfew := ((mem_takeSnapshot_iff hcopy).mp hleft).2
  ext x
  rw [mem_laterSnapshots, mem_laterSnapshots]
  refine and_congr_left fun hx ↦ ?_
  rw [mem_takeSnapshot_iff hx.1]
  -- what is later than a later name is later than the copy
  refine and_iff_left_of_imp fun _ ↦ lt_of_le_of_lt (Finset.card_le_card fun y hy ↦ ?_) hfew
  rw [mem_laterSnapshots] at hy ⊢
  exact ⟨hy.1, hy.2.1, hx.2.trans hy.2.2⟩

theorem laterSnapshots_insert_self :
    laterSnapshots (insert copy b) copy = laterSnapshots b copy := by
  ext x
  rw [mem_laterSnapshots, mem_laterSnapshots, Finset.mem_insert]
  refine and_congr_left fun hx ↦ or_iff_right fun heq ↦ ?_
  exact lt_irrefl copy (heq ▸ hx.2)

theorem takeSnapshots_concat (names : List String) :
    takeSnapshots keep (names ++ [name]) b =
      takeSnapshot keep name (takeSnapshots keep names b) := by
  rw [takeSnapshots, List.foldl_append]
  exact List.foldl_cons ..

theorem laterSnapshots_insert {b' : Finset String}
    (h : laterSnapshots b' copy = laterSnapshots b copy) :
    laterSnapshots (insert name b') copy = laterSnapshots (insert name b) copy := by
  ext x
  have hx := Finset.ext_iff.mp h x
  rw [mem_laterSnapshots, mem_laterSnapshots] at hx
  rw [mem_laterSnapshots, mem_laterSnapshots, Finset.mem_insert, Finset.mem_insert, or_and_right,
    or_and_right, hx]

theorem union_concat (names : List String) :
    b ∪ (names ++ [name]).toFinset = insert name (b ∪ names.toFinset) := by
  ext x
  simp only [Finset.mem_union, List.mem_toFinset, List.mem_append, List.mem_singleton,
    Finset.mem_insert]
  tauto

theorem forall_prefix_concat_iff {α : Type} {P : List α → Prop} {xs : List α} {x : α} :
    (∀ past, past <+: xs ++ [x] → P past) ↔ (∀ past, past <+: xs → P past) ∧ P (xs ++ [x]) := by
  constructor
  · intro h
    refine ⟨fun past hpast ↦ h past ?_, h _ (List.prefix_refl _)⟩
    exact hpast.trans (List.prefix_append xs [x])
  · intro h past hpast
    rcases List.prefix_concat_iff.mp hpast with hall | hbefore
    · rw [hall]
      exact h.2
    · exact h.1 past hbefore

/-- While a copy is there, no later name goes either. -/
theorem laterSnapshots_takeSnapshots (hcopy : isSnapshot copy = true) (names : List String)
    (h : ∀ past, past <+: names → copy ∈ takeSnapshots keep (copy :: past) b) :
    laterSnapshots (takeSnapshots keep (copy :: names) b) copy =
      laterSnapshots (b ∪ names.toFinset) copy := by
  have hleft := h names (List.prefix_refl names)
  induction names using List.reverseRecOn with
  | nil =>
    have hfirst : takeSnapshots keep [copy] b = takeSnapshot keep copy b := rfl
    rw [hfirst] at hleft ⊢
    rw [laterSnapshots_takeSnapshot hcopy hleft, laterSnapshots_insert_self, List.toFinset_nil,
      Finset.union_empty]
  | append_singleton names name ih =>
    have hbefore := (forall_prefix_concat_iff.mp h).1
    rw [← List.cons_append, takeSnapshots_concat] at hleft ⊢
    rw [laterSnapshots_takeSnapshot hcopy hleft, union_concat]
    exact laterSnapshots_insert (ih hbefore (hbefore names (List.prefix_refl names)))

/-- A copy is there throughout just when the later names, those from before it and those that came
since, are fewer than what is kept. -/
theorem stays_iff (hcopy : isSnapshot copy = true) (names : List String) :
    (∀ past, past <+: names → copy ∈ takeSnapshots keep (copy :: past) b) ↔
      (laterSnapshots (b ∪ names.toFinset) copy).card < 2 * keep := by
  induction names using List.reverseRecOn with
  | nil =>
    have hfirst : takeSnapshots keep [copy] b = takeSnapshot keep copy b := rfl
    have hthere : copy ∈ takeSnapshots keep [copy] b ↔
        (laterSnapshots (b ∪ [].toFinset) copy).card < 2 * keep := by
      rw [hfirst, mem_takeSnapshot_iff hcopy, laterSnapshots_insert_self,
        and_iff_right (Finset.mem_insert_self copy b), List.toFinset_nil, Finset.union_empty]
    rw [← hthere]
    constructor
    · intro h
      exact h [] (List.prefix_refl [])
    · intro h past hpast
      rw [List.prefix_nil.mp hpast]
      exact h
  | append_singleton names name ih =>
    -- the last snapshot finds the copy, with the later names that are counted in the end
    have hstep (h : ∀ past, past <+: names → copy ∈ takeSnapshots keep (copy :: past) b) :
        copy ∈ takeSnapshots keep (copy :: (names ++ [name])) b ↔
          (laterSnapshots (insert name (b ∪ names.toFinset)) copy).card < 2 * keep := by
      rw [← List.cons_append, takeSnapshots_concat, mem_takeSnapshot_iff hcopy,
        laterSnapshots_insert (laterSnapshots_takeSnapshots hcopy names h)]
      exact and_iff_right (Finset.mem_insert_of_mem (h names (List.prefix_refl names)))
    rw [union_concat, forall_prefix_concat_iff]
    constructor
    · intro h
      exact (hstep h.1).mp h.2
    · intro h
      have hbefore : (laterSnapshots (b ∪ names.toFinset) copy).card < 2 * keep := by
        refine lt_of_le_of_lt (Finset.card_le_card fun x hx ↦ ?_) h
        rw [mem_laterSnapshots] at hx ⊢
        exact ⟨Finset.mem_insert_of_mem hx.1, hx.2⟩
      exact ⟨ih.mpr hbefore, (hstep (ih.mpr hbefore)).mpr h⟩

end Pruning

/-! ## While the rotation goes on -/

theorem snapshotNames_append (clock : Nat → String) (i : Nat) (es fs : List Effect) :
    snapshotNames clock i (es ++ fs) =
      snapshotNames clock i es ++ snapshotNames clock (i + es.length) fs := by
  induction es generalizing i with
  | nil => rfl
  | cons e es ih =>
    have hindex : i + (e :: es).length = i + 1 + es.length := by
      rw [List.length_cons]
      omega
    rw [hindex]
    cases e with
    | snapshot moment => exact congrArg (snapshotName (clock i) moment :: ·) (ih (i + 1))
    | _ => exact ih (i + 1)

/-- The first of the snapshots are those of the first effects. -/
theorem prefix_snapshotNames {clock : Nat → String} {i : Nat} {es : List Effect}
    {names : List String} (h : names <+: snapshotNames clock i es) :
    ∃ fs, fs <+: es ∧ snapshotNames clock i fs = names := by
  induction es generalizing i names with
  | nil => exact ⟨[], List.prefix_refl [], (List.prefix_nil.mp h).symm⟩
  | cons e es ih =>
    have hskip : names <+: snapshotNames clock (i + 1) es →
        (∀ fs, snapshotNames clock i (e :: fs) = snapshotNames clock (i + 1) fs) →
          ∃ fs, fs <+: e :: es ∧ snapshotNames clock i fs = names := by
      intro hnames heq
      obtain ⟨fs, hfs, hfound⟩ := ih hnames
      exact ⟨e :: fs, List.prefix_cons_inj e |>.mpr hfs, (heq fs).trans hfound⟩
    cases e with
    | snapshot moment =>
      rcases List.prefix_cons_iff.mp h with hnone | ⟨rest, hnames, hrest⟩
      · exact ⟨[], List.nil_prefix, hnone.symm⟩
      · obtain ⟨fs, hfs, hfound⟩ := ih hrest
        refine ⟨_, List.prefix_cons_inj (.snapshot moment) |>.mpr hfs, ?_⟩
        rw [snapshotNames, hfound, hnames]
    -- the other effects take no snapshot
    | _ => exact hskip h fun _ ↦ rfl

/-- The copy before the handoff, where it is the effect of this number. -/
def copyName (clock : Nat → String) (i : Nat) : String :=
  snapshotName (clock i) Moment.beforeHandoff.name

theorem isSnapshot_copyName (clock : Nat → String) (i : Nat) :
    isSnapshot (copyName clock i) = true := by
  have hchars : (copyName clock i).toList = (clock i).toList ++ "-before-handoff".toList := by
    rw [copyName, snapshotName, String.append_assoc, String.toList_append]
    rfl
  rw [isSnapshot, hchars, Bool.or_eq_true, List.isSuffixOf_iff_suffix]
  exact .inl (List.suffix_append _ _)

/-! ### What the effects find -/

/-- An effect with the files that it finds. -/
structure Found where
  paths : Paths
  effect : Effect

/-- The rotation ends with an action or with its records, or the supervisor finds its marker gone:
it was cancelled by hand. -/
def Found.endsRotation (x : Found) : Bool :=
  x.effect.endsRotation || x.effect == .writeNext .normal && !x.paths.marker

/-- What becomes of the files with a step. -/
def Label.files (p : Paths) : Label → Paths
  | .boot _ => p
  | .did _ es | .lost _ es => Effect.applyAll p es
  | .mark => p.writeMarker
  | .unmark => p.removeMarker
  | .spoil file => { p with rotation := file }
  | .transcripts ids => { p with transcripts := ids }

/-- Effects one after the other, each with the files that it finds. -/
def foundBy (p : Paths) : List Effect → List Found
  | [] => []
  | e :: es => ⟨p, e⟩ :: foundBy (e.apply p) es

/-- All that the supervisor does to the world, with the files that it finds. -/
def found (p : Paths) : List Label → List Found
  | [] => []
  | l :: ls => foundBy p l.shown ++ found (l.files p) ls

def effects (xs : List Found) : List Effect := xs.map Found.effect

theorem effects_foundBy (p : Paths) (es : List Effect) : effects (foundBy p es) = es := by
  induction es generalizing p with
  | nil => rfl
  | cons e es ih => exact congrArg (e :: ·) (ih (e.apply p))

theorem effects_found (p : Paths) (ls : List Label) : effects (found p ls) = shown ls := by
  induction ls generalizing p with
  | nil => rfl
  | cons l ls ih =>
    rw [found, effects, List.map_append]
    exact congrArg₂ (· ++ ·) (effects_foundBy p l.shown) (ih (l.files p))

theorem found_append (p : Paths) (past future : List Label) :
    found p (past ++ future) = found p past ++ found (past.foldl Label.files p) future := by
  induction past generalizing p with
  | nil => rfl
  | cons l past ih =>
    rw [List.cons_append, found, found, ih, List.append_assoc]
    rfl

/-- In a run, what the supervisor goes on to do finds the files of the state that it has come to. -/
theorem found_of_run {p : Paths} {process : Process} {past : List Label} {t : System}
    (h : Lts.Run Step ⟨p, process⟩ past t) (future : List Label) :
    found p (past ++ future) = found p past ++ found t.paths future := by
  have hfiles : past.foldl Label.files p = t.paths := by
    induction h with
    | nil => rfl
    | snoc _ hstep ih =>
      rw [List.foldl_append, ih]
      cases hstep <;> rfl
  rw [found_append, hfiles]

/-! ### The copy of the rotation -/

/-- After these effects, a copy of the rotation that goes on is there. -/
def CopyThere (keep : Nat) (clock : Nat → String) (b : Finset String) (xs : List Found) : Prop :=
  ∀ before p since, xs = before ++ ⟨p, .snapshot Moment.beforeHandoff.name⟩ :: since →
    (∀ x ∈ since, x.endsRotation = false) →
      copyName clock before.length ∈ backups keep clock b (effects xs)

/-- Fewer names than are kept are later than a copy of the rotation that goes on: of those that were
there before it, and of the snapshots since. -/
def FewLater (keep : Nat) (clock : Nat → String) (b : Finset String) (xs : List Found) : Prop :=
  ∀ before p since, xs = before ++ ⟨p, .snapshot Moment.beforeHandoff.name⟩ :: since →
    (∀ x ∈ since, x.endsRotation = false) →
      (laterSnapshots (backups keep clock b (effects before) ∪
        (snapshotNames clock (before.length + 1) (effects since)).toFinset)
          (copyName clock before.length)).card < 2 * keep

theorem backups_split (keep : Nat) (clock : Nat → String) (b : Finset String)
    (before since : List Found) (p : Paths) :
    backups keep clock b
        (effects (before ++ ⟨p, .snapshot Moment.beforeHandoff.name⟩ :: since)) =
      takeSnapshots keep
        (copyName clock before.length :: snapshotNames clock (before.length + 1) (effects since))
        (backups keep clock b (effects before)) := by
  have hlength : (effects before).length = before.length := List.length_map ..
  rw [effects, List.map_append, List.map_cons, backups, backups, ← effects, ← effects,
    snapshotNames_append, Nat.zero_add, hlength, takeSnapshots, List.foldl_append]
  rfl

/-- A copy that is there all the time has few later ones. -/
theorem fewLater_of_copyThere {keep : Nat} {clock : Nat → String} {b : Finset String}
    {all : List Found} (h : ∀ xs, xs <+: all → CopyThere keep clock b xs) {xs : List Found}
    (hxs : xs <+: all) : FewLater keep clock b xs := by
  intro before p since hsplit hgoes
  rw [← stays_iff (isSnapshot_copyName clock before.length)]
  intro past hpast
  obtain ⟨fs, hfs, rfl⟩ := prefix_snapshotNames hpast
  obtain ⟨ys, ⟨rest, hrest⟩, rfl⟩ : ∃ ys, ys <+: since ∧ effects ys = fs := by
    refine ⟨since.take fs.length, List.take_prefix _ _, ?_⟩
    rw [effects, List.map_take]
    exact (List.prefix_iff_eq_take.mp hfs).symm
  have hys : before ++ ⟨p, .snapshot Moment.beforeHandoff.name⟩ :: ys <+: all := by
    refine List.IsPrefix.trans ⟨rest, ?_⟩ hxs
    rw [hsplit, ← hrest, List.append_assoc, List.cons_append]
  rw [← backups_split]
  exact h _ hys before p ys rfl fun x hx ↦ hgoes x (hrest ▸ List.mem_append_left rest hx)

/-- Whatever the supervisor does: wherever it has come to, the copy of the rotation that goes on is
there, just when fewer names than are kept are ever later. -/
theorem copyThere_iff (keep : Nat) (clock : Nat → String) (b : Finset String) (p : Paths)
    (ls : List Label) :
    (∀ xs, xs <+: found p ls → CopyThere keep clock b xs) ↔
      ∀ xs, xs <+: found p ls → FewLater keep clock b xs := by
  constructor
  · intro h xs hxs
    exact fewLater_of_copyThere h hxs
  · intro h xs hxs before q since hsplit hgoes
    have hfew := h xs hxs before q since hsplit hgoes
    rw [← stays_iff (isSnapshot_copyName clock before.length)] at hfew
    rw [hsplit, backups_split]
    exact hfew _ (List.prefix_refl _)

/-- A clock that moves on between the handoff turns. -/
def someClock (i : Nat) : String :=
  if i < 10 then "2026-09-06T01:00:00Z"
  else if i < 17 then "2026-09-06T01:10:00Z"
  else "2026-09-06T01:40:00Z"

theorem monotone_someClock : Monotone someClock := by
  intro i j hij
  unfold someClock
  by_cases hi : i < 10
  · rw [if_pos hi]
    split
    · decide
    · split
      · decide
      · decide
  · rw [if_neg hi, if_neg (show ¬j < 10 by omega)]
    by_cases hi' : i < 17
    · rw [if_pos hi']
      split
      · decide
      · decide
    · rw [if_neg hi', if_neg (show ¬j < 17 by omega)]

/-- A session with its marker is started, and gets its quiet moment. -/
def untilCopy : List Effect :=
  [.writeNext .normal, .clearChannelReady, .spawn ⟨"51209dfc", true, .resumed, 0, false, false⟩,
    .send (.intro .resumed), .writeChannelReady "51209dfc", .action (.snapshot .beforeHandoff)]

/-- The handoff turn ends, the compaction is cut, and the retried handoff turn ends. -/
def sinceCopy : List Effect :=
  [.action .requestHandoff, .send .handoff, .action (.snapshot .afterHandoff),
    .snapshot "after-handoff", .action .compact, .send .compact,
    .action (.retry .compaction 1 true), .clearChannelReady,
    .spawn ⟨"51209dfc", true, .retry, 1, true, false⟩, .send (.intro .retry),
    .writeChannelReady "51209dfc", .action (.snapshot .afterHandoff), .snapshot "after-handoff",
    .action .compact, .send .compact]

/-- Both copies after the handoff are later. -/
theorem later_sinceCopy (b : Finset String) :
    2 ≤ (laterSnapshots (b ∪ (snapshotNames someClock (untilCopy.length + 1) sinceCopy).toFinset)
      (copyName someClock untilCopy.length)).card := by
  have hpair : ({"2026-09-06T01:10:00Z-after-handoff", "2026-09-06T01:40:00Z-after-handoff"} :
      Finset String).card = 2 := by decide
  rw [← hpair]
  refine Finset.card_le_card fun x hx ↦ mem_laterSnapshots.mpr ?_
  rw [Finset.mem_insert, Finset.mem_singleton] at hx
  rcases hx with rfl | rfl
  · exact ⟨Finset.mem_union_right _ (by decide), by decide, by decide⟩
  · exact ⟨Finset.mem_union_right _ (by decide), by decide, by decide⟩

/-- Where one rotation's worth is kept, the copy goes with the third snapshot of the rotation. -/
theorem copy_pruned : ¬∀ keep clock b p ls s, 0 < keep → Monotone clock → p.rotation = .absent →
    Lts.Run Step ⟨p, .down⟩ ls s → ∀ xs, xs <+: found p ls → CopyThere keep clock b xs := by
  intro hall
  have hthere := hall 1 someClock ∅ { savedPaths with marker := true } _ _ (by decide)
    monotone_someClock rfl
    ((((((((((Lts.Run.single (.boot _ someConfig)).snoc
      (.did (.start _ none "new" _ _ 0 rfl))).snoc
      (.did (.turn _ _ _ (.out (.assistant false none false) false) 5))).snoc
      (.did (.turn _ _ _ (.out (.result false false) false) 10))).snoc
      (.did (.turn _ _ _ (.out (.result false false) true) 30))).snoc
      (.did (.turn _ _ _ .tick 1000))).snoc
      (.did (.leave _ _ _ [] 0 false))).snoc
      (.did (.start _ none "newer" _ _ 1001 rfl))).snoc
      (.did (.turn _ _ _ (.out (.assistant false none false) false) 1005))).snoc
      (.did (.turn _ _ _ (.out (.result false false) true) 1030)))
  -- the run shows the effects of both lists, and the rotation goes on
  have hfew := fewLater_of_copyThere hthere (List.prefix_refl _)
    (foundBy { savedPaths with marker := true } untilCopy)
    { savedPaths with marker := true, channelReady := some "51209dfc" }
    (foundBy { savedPaths with marker := true, channelReady := some "51209dfc" } sinceCopy)
    rfl (by decide)
  have hlater := later_sinceCopy (backups 1 someClock ∅ untilCopy)
  have hlength : (foundBy { savedPaths with marker := true } untilCopy).length =
      untilCopy.length := rfl
  rw [effects_foundBy, effects_foundBy, hlength] at hfew
  omega

end Supervisor

end Silta
