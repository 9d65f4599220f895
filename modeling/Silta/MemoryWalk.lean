import Silta.Lib.FileTree

/-!
# Walking the memory

The three walks over directories that the session does not write itself: whether a file is new, the
copy of a directory, and the removal of old files.  The first two go through links.
-/

namespace Silta

namespace Memory

open FileTree

/-- One file operation of a copy. -/
inductive Op (α : Type)
  | createDirAll (dir : Position)
  | readDir (dir : Position)
  | copy (src : Position) (content : α) (dst : Position)

variable {α : Type}

namespace Op

/-- The file that is copied. -/
def src? : Op α → Option Position
  | .copy src _ _ => some src
  | _ => none

/-- Where a file is copied to. -/
def dst? : Op α → Option Position
  | .copy _ _ dst => some dst
  | _ => none

/-- The directory that is read. -/
def dir? : Op α → Option Position
  | .readDir dir => some dir
  | _ => none

end Op

/-- What `copy_dir` does for a directory, for a file, and for what is neither. -/
def copyEvent (dst : Position) : Event α → List (Op α)
  | .enter dir path => [.createDirAll (dst ++ path), .readDir dir]
  | .look (some (src, content)) path => [.copy src content (dst ++ path)]
  | .look none _ => []

/-- The operations of `copy_dir`, where each path may pass so many links. -/
def copyDir (fs : FileSystem α) (links : Nat) (src dst : Position) : List (Op α) :=
  (fs.walk links src).flatMap (copyEvent dst)

/-- The entries that `any_file` looks at, up to the first that satisfies the predicate, and whether
there is one. -/
def anyFileLoop (pred : Position → Bool) : List (Event α) → List (Event α) × Bool
  | [] => ([], false)
  | .enter dir path :: rest => Prod.map (.enter dir path :: ·) id (anyFileLoop pred rest)
  | .look file path :: rest =>
    if pred path then ([.look file path], true)
    else Prod.map (.look file path :: ·) id (anyFileLoop pred rest)

def anyFile (fs : FileSystem α) (links : Nat) (dir : Position) (pred : Position → Bool) :
    List (Event α) × Bool :=
  anyFileLoop pred (fs.walk links dir)

/-- `prune_older` asks what the entry itself is, so that a link is no directory. -/
def pruneOlder (fs : FileSystem α) (dir : Position) : List (Event α) := fs.walk 0 dir

/-! ## What is visited -/

theorem copyDir_filterMap {β : Type} {f : Op α → Option β} {g : Event α → Option β}
    {dst : Position} (h : ∀ e, (copyEvent dst e).filterMap f = (g e).toList) (fs : FileSystem α)
    (links : Nat) (src : Position) :
    (copyDir fs links src dst).filterMap f = (fs.walk links src).filterMap g := by
  rw [copyDir, List.filterMap_flatMap, List.filterMap_eq_flatMap_toList]
  exact List.flatMap_congr fun e _ ↦ h e

theorem copyDir_src (fs : FileSystem α) (links : Nat) (src dst : Position) :
    (copyDir fs links src dst).filterMap Op.src? =
      (fs.walk links src).filterMap Event.file? := by
  refine copyDir_filterMap (fun e ↦ ?_) fs links src
  cases e with
  | enter dir path => rfl
  | look file path => cases file <;> rfl

theorem copyDir_dir (fs : FileSystem α) (links : Nat) (src dst : Position) :
    (copyDir fs links src dst).filterMap Op.dir? = (fs.walk links src).filterMap Event.dir? := by
  refine copyDir_filterMap (fun e ↦ ?_) fs links src
  cases e with
  | enter dir path => rfl
  | look file path => cases file <;> rfl

theorem copyDir_dst (fs : FileSystem α) (links : Nat) (src dst : Position) :
    (copyDir fs links src dst).filterMap Op.dst? =
      (fs.walk links src).filterMap fun e ↦ e.path?.map (dst ++ ·) := by
  refine copyDir_filterMap (fun e ↦ ?_) fs links src
  cases e with
  | enter dir path => rfl
  | look file path => cases file <;> rfl

/-- No two files are copied to one place. -/
theorem nodup_copyDir (fs : FileSystem α) (links : Nat) (src dst : Position) :
    ((copyDir fs links src dst).filterMap Op.dst?).Nodup := by
  rw [copyDir_dst, ← List.map_filterMap]
  exact (fs.nodup_paths links src).map (List.append_right_injective dst)

/-- `any_file` looks at what the walk comes to, and at all of it where nothing satisfies the
predicate. -/
theorem anyFileLoop_spec (pred : Position → Bool) (events : List (Event α)) :
    (anyFileLoop pred events).1 <+: events ∧
      ((anyFileLoop pred events).2 = false → (anyFileLoop pred events).1 = events) := by
  induction events with
  | nil => exact ⟨List.prefix_refl _, fun _ ↦ rfl⟩
  | cons e events ih =>
    have hnext : (Prod.map (e :: ·) id (anyFileLoop pred events)).1 <+: e :: events ∧
        ((Prod.map (e :: ·) id (anyFileLoop pred events)).2 = false →
          (Prod.map (e :: ·) id (anyFileLoop pred events)).1 = e :: events) := by
      refine ⟨List.prefix_cons_inj e |>.mpr ih.1, fun hnone ↦ ?_⟩
      exact congrArg (e :: ·) (ih.2 hnone)
    cases e with
    | enter dir path => exact hnext
    | look file path =>
      rw [anyFileLoop]
      by_cases hpred : pred path = true
      · rw [if_pos hpred]
        exact ⟨⟨events, rfl⟩, nofun⟩
      · rw [if_neg hpred]
        exact hnext

/-! ## Each file once -/

/-- `copy_dir` and `any_file` come to each file below a directory once, and `copy_dir` does not read
what it writes. -/
structure VisitsOnce (fs : FileSystem α) (links : Nat) (dir dst : Position) : Prop where
  copied : ∀ q, fs.IsFile q → dir <+: q →
    ((copyDir fs links dir dst).filterMap Op.src?).count q = 1
  apart : ∀ p ∈ (copyDir fs links dir dst).filterMap Op.dir?, ¬dst <+: p
  looked : ∀ pred q, fs.IsFile q → dir <+: q →
    ((anyFile fs links dir pred).1.filterMap Event.file?).count q ≤ 1 ∧
      ((anyFile fs links dir pred).2 = false →
        ((anyFile fs links dir pred).1.filterMap Event.file?).count q = 1)

/-- Each file is visited once just when no links lead from below the directory to one of its files
or above it, and neither the directory nor a place they lead to has the destination of the copy in
it.  The tree is the one with the destination made, since `copy_dir` makes it before it reads. -/
theorem visitsOnce_iff (fs : FileSystem α) (links : Nat) (dir dst : Position) :
    VisitsOnce fs links dir dst ↔
      (∀ q, fs.IsFile q → dir <+: q → ∀ u, fs.Leads links dir u → ¬u <+: q) ∧
        ∀ p, fs.IsDir p → dst <+: p → ¬dir <+: p ∧ ∀ u, fs.Leads links dir u → ¬u <+: p := by
  -- the directories that are read are those below the directory and below where links lead
  have hread : ∀ p, p ∈ (copyDir fs links dir dst).filterMap Op.dir? ↔
      fs.IsDir p ∧ (dir <+: p ∨ ∃ u, fs.Leads links dir u ∧ u <+: p) := by
    intro p
    rw [copyDir_dir, FileSystem.shows_dir?.mem_walk_iff]
    refine and_congr_left fun _ ↦ ⟨?_, ?_⟩
    · rintro ⟨node, hnode, entries, rfl⟩
      exact ⟨entries, hnode⟩
    · rintro ⟨entries, hnode⟩
      exact ⟨_, hnode, entries, rfl⟩
  constructor
  · intro h
    refine ⟨fun q hq hdir ↦ ?_, fun p hp hdst ↦ ?_⟩
    · rw [← FileSystem.count_file_eq_one_iff hq hdir, ← copyDir_src]
      exact h.copied q hq hdir
    · have hnot := mt (h.apart p) (not_not_intro hdst)
      rw [hread] at hnot
      refine ⟨fun hdir ↦ hnot ⟨hp, .inl hdir⟩, fun u hleads hu ↦ ?_⟩
      exact hnot ⟨hp, .inr ⟨u, hleads, hu⟩⟩
  · intro h
    have honce : ∀ q, fs.IsFile q → dir <+: q →
        ((fs.walk links dir).filterMap Event.file?).count q = 1 := by
      intro q hq hdir
      exact (FileSystem.count_file_eq_one_iff hq hdir).mpr (h.1 q hq hdir)
    refine ⟨fun q hq hdir ↦ ?_, fun p hp hdst ↦ ?_, fun pred q hq hdir ↦ ?_⟩
    · rw [copyDir_src]
      exact honce q hq hdir
    · obtain ⟨hdir, hstart | ⟨u, hleads, hu⟩⟩ := (hread p).mp hp
      · exact (h.2 p hdir hdst).1 hstart
      · exact (h.2 p hdir hdst).2 u hleads hu
    · obtain ⟨hfirst, hall⟩ := anyFileLoop_spec pred (fs.walk links dir)
      constructor
      · rw [← honce q hq hdir]
        exact (hfirst.sublist.filterMap _).count_le q
      · intro hnone
        rw [anyFile, hall hnone]
        exact honce q hq hdir

/-- The walk that takes no link for a directory visits each file once in every tree. -/
theorem pruneOlder_once (fs : FileSystem α) {dir q : Position} (hq : fs.IsFile q)
    (hdir : dir <+: q) : ((pruneOlder fs dir).filterMap Event.file?).count q = 1 := by
  -- with no link to pass, none leads anywhere
  refine (FileSystem.count_file_eq_one_iff hq hdir).mpr fun u hleads ↦ ?_
  cases hleads <;> omega

/-- A memory with one note and a link to itself. -/
def linked : FileSystem Unit where
  root := .dir [("memory", .dir [("MEMORY.md", .file ()), ("all", .link 0 ["memory"])])]
  distinct := by simp [Node.Distinct, DistinctEntries]

theorem linked_visits : ¬∀ (fs : FileSystem Unit) links dir dst, VisitsOnce fs links dir dst := by
  intro hall
  have hq : linked.IsFile ["memory", "MEMORY.md"] := ⟨(), rfl⟩
  have honce := (hall linked 40 ["memory"] ["backups"]).copied _ hq ⟨["MEMORY.md"], rfl⟩
  rw [copyDir_src, FileSystem.count_file_eq_one_iff hq ⟨["MEMORY.md"], rfl⟩] at honce
  -- the link leads to the directory above the note
  have hlink : linked.root.find (["memory"] ++ ["all"]) = some (.link 0 ["memory"]) := rfl
  exact honce ["memory"] (.link hlink (by decide)) ⟨["MEMORY.md"], rfl⟩

end Memory

end Silta
