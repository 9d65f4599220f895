import Silta.MemoryWalk

/-!
# The snapshot of memory and transcript

The file operations of one snapshot, in order, and what is under `backups/` when one of them fails.
-/

namespace Silta

namespace Memory

open FileTree

variable {α : Type}

/-- The directory of a snapshot. -/
def snapshotName (time moment : String) : String := time ++ "-" ++ moment

/-- The session's `HOME`: where the projects are, and how many links a path below them may pass. -/
structure Home (α : Type) where
  fs : FileSystem α
  links : Nat
  projects : Position
  backups : Position

/-- Where a path leads from a directory, and how many links may still be passed. -/
def resolve (fs : FileSystem α) : Nat → Position → Position → Option (Nat × Position)
  | links, pos, [] => some (links, pos)
  | links, pos, name :: rest =>
    -- the rest of the path starts from where a link leads
    match fs.root.find (pos ++ [name]) with
    | some (.link further target) =>
      if further < links then resolve fs (links - (further + 1)) target rest else none
    | some _ => resolve fs links (pos ++ [name]) rest
    | none => none

namespace Home

variable (home : Home α)

/-- The slugs of the projects, in the order of the listing. -/
def slugs : List String :=
  match home.fs.root.find home.projects with
  | some (.dir entries) => entries.map Prod.fst
  | _ => []

/-- The memory directory of a project. -/
def memoryDir (slug : String) : Option (Nat × Position) :=
  (resolve home.fs home.links home.projects [slug, "memory"]).filter fun found ↦
    match home.fs.root.find found.2 with
    | some (.dir _) => true
    | _ => false

/-- The memory directory of every project, with the project's slug. -/
def memoryDirs : List (String × Nat × Position) :=
  home.slugs.filterMap fun slug ↦ (home.memoryDir slug).map (slug, ·)

/-- The transcript of a session under one project. -/
def transcriptIn (id slug : String) : Option (Position × α) :=
  (resolve home.fs home.links home.projects [slug, id ++ ".jsonl"]).bind fun found ↦
    match home.fs.root.find found.2 with
    | some (.file content) => some (found.2, content)
    | _ => none

/-- The transcript of a session, with the slug of the first project that has it. -/
def transcript (id : String) : Option (String × Position × α) :=
  home.slugs.findSome? fun slug ↦ (home.transcriptIn id slug).map (slug, ·)

def copyTranscript (name id : String) : List (Op α) :=
  match home.transcript id with
  | some (slug, src, content) =>
    [.createDirAll [name, slug], .copy src content [name, slug, id ++ ".jsonl"]]
  | none => [.createDirAll [name]]

/-- The operations of a snapshot that fail it, in order.  What they write is below `backups`. -/
def snapshot (name id : String) : List (Op α) :=
  (home.memoryDirs.flatMap fun dir ↦
      copyDir home.fs dir.2.1 dir.2.2 [name, dir.1, "memory"]) ++
    home.copyTranscript name id ++ [.readDir home.backups]

end Home

/-! ## What the operations do -/

inductive Item (α : Type)
  | dir
  | file (content : α)

/-- What stands below `backups`.  The empty path is `backups` itself. -/
abbrev Disk (α : Type) := Position → Option (Item α)

namespace Disk

variable (d : Disk α)

def isDir (p : Position) : Bool :=
  match d p with
  | some .dir => true
  | _ => false

def isFile (p : Position) : Bool :=
  match d p with
  | some (.file _) => true
  | _ => false

/-- Each directory on the way that is missing is made. -/
def createDirAll (p : Position) : Disk α := fun q ↦
  if q <+: p ∧ (d q).isNone then some .dir else d q

/-- Nothing where the operation cannot succeed. -/
def apply : Op α → Option (Disk α)
  | .createDirAll p =>
    if ∀ k ≤ p.length, d.isFile (p.take k) = false then some (d.createDirAll p) else none
  | .readDir _ => some d
  | .copy _ content p =>
    if (∀ k < p.length, d.isDir (p.take k) = true) ∧ d.isDir p = false then
      some (Function.update d p (some (.file content)))
    else
      none

end Disk

/-- What an operation that fails may have done: some of the directories are made, or there is a
file, with some content. -/
inductive Remains : Op α → List (Op α) → Prop
  | nothing (op : Op α) : Remains op []
  | dirs (p : Position) (k : Nat) : Remains (.createDirAll p) [.createDirAll (p.take k)]
  | part (src p : Position) (content part : α) :
      Remains (.copy src content p) [.copy src part p]

/-- One of the operations fails, and this is what was done by then. -/
def Fails (ops done : List (Op α)) : Prop :=
  ∃ before op rest left, ops = before ++ op :: rest ∧ Remains op left ∧ done = before ++ left

/-- Every directory of `backups` was there before, with what is in it. -/
def NoFalseCopy (d d' : Disk α) : Prop :=
  ∀ name, d'.isDir [name] = true → ∀ path, d' (name :: path) = d (name :: path)

/-- What the operation makes or writes below `backups` was there before, just so. -/
def Stood (d : Disk α) : Op α → Prop
  | .createDirAll p => ∀ q, q <+: p → q ≠ [] → d q ≠ none
  | .readDir _ => True
  | .copy _ content p => d p = some (.file content)

/-! ## Where a snapshot writes -/

/-- Directories with the snapshot's name first, and files further below. -/
def Under (name : String) : Op α → Prop
  | .createDirAll p => ∀ first ∈ p.head?, first = name
  | .readDir _ => True
  | .copy _ _ p => ∃ slug rest, p = name :: slug :: rest

namespace Home

variable (home : Home α) (name id : String)

theorem nodup_slugs : home.slugs.Nodup := by
  unfold slugs
  cases hnode : home.fs.root.find home.projects with
  | none => exact List.nodup_nil
  | some node =>
    cases node with
    | dir entries => exact (home.fs.distinct.find hnode).1
    | _ => exact List.nodup_nil

theorem nodup_memoryDirs : (home.memoryDirs.map Prod.fst).Nodup := by
  refine home.nodup_slugs.sublist ?_
  unfold memoryDirs
  generalize home.slugs = slugs
  induction slugs with
  | nil => exact List.Sublist.refl []
  | cons slug slugs ih =>
    cases hdir : home.memoryDir slug with
    | none =>
      rw [List.filterMap_cons_none (by rw [hdir, Option.map_none])]
      exact ih.cons slug
    | some dir =>
      rw [List.filterMap_cons_some (by rw [hdir, Option.map_some]), List.map_cons]
      exact ih.cons_cons slug

theorem dst_copyDir {dir : String × Nat × Position} {p : Position}
    (h : p ∈ (copyDir home.fs dir.2.1 dir.2.2 [name, dir.1, "memory"]).filterMap Op.dst?) :
    ∃ rest, p = name :: dir.1 :: "memory" :: rest := by
  rw [copyDir_dst, List.mem_filterMap] at h
  obtain ⟨e, -, he⟩ := h
  obtain ⟨path, -, rfl⟩ := Option.map_eq_some_iff.mp he
  exact ⟨path, rfl⟩

/-- A transcript has another name than the memory. -/
theorem transcript_ne_memory : id ++ ".jsonl" ≠ "memory" := by
  intro h
  have hlast := congrArg (fun s ↦ s.toList.getLast?) h
  simp at hlast

/-- No two files of a snapshot are copied to one place. -/
theorem nodup_snapshot : ((home.snapshot name id).filterMap Op.dst?).Nodup := by
  have hmemory : ((home.memoryDirs.flatMap fun dir ↦
      copyDir home.fs dir.2.1 dir.2.2 [name, dir.1, "memory"]).filterMap Op.dst?).Nodup := by
    rw [List.filterMap_flatMap, List.nodup_flatMap]
    refine ⟨fun dir _ ↦ nodup_copyDir home.fs dir.2.1 dir.2.2 _, ?_⟩
    refine (List.pairwise_map.mp home.nodup_memoryDirs).imp fun {dir dir'} hne p hp hp' ↦ ?_
    obtain ⟨rest, rfl⟩ := dst_copyDir home name hp
    obtain ⟨rest', heq⟩ := dst_copyDir home name hp'
    exact hne (List.cons.inj (List.cons.inj heq).2).1
  -- the listing before the pruning writes nothing
  have hlast : (List.filterMap Op.dst? [(.readDir home.backups : Op α)]) = [] := rfl
  rw [snapshot, List.filterMap_append, List.filterMap_append, hlast, List.append_nil,
    List.nodup_append]
  unfold copyTranscript
  cases home.transcript id with
  | none => exact ⟨hmemory, List.nodup_nil, by simp [Op.dst?]⟩
  | some found =>
    obtain ⟨slug, src, content⟩ := found
    refine ⟨hmemory, List.nodup_singleton _, fun p hp q hq ↦ ?_⟩
    obtain rfl : q = [name, slug, id ++ ".jsonl"] := List.mem_singleton.mp hq
    rw [List.filterMap_flatMap, List.mem_flatMap] at hp
    obtain ⟨dir, -, hp⟩ := hp
    obtain ⟨rest, rfl⟩ := dst_copyDir home name hp
    intro heq
    simp only [List.cons.injEq] at heq
    exact transcript_ne_memory id heq.2.2.1.symm

theorem under_snapshot : ∀ op ∈ home.snapshot name id, Under name op := by
  intro op hop
  rw [snapshot, List.mem_append, List.mem_append, List.mem_singleton] at hop
  rcases hop with (hmemory | htranscript) | rfl
  · obtain ⟨dir, -, hop⟩ := List.mem_flatMap.mp hmemory
    obtain ⟨e, -, he⟩ := List.mem_flatMap.mp hop
    cases e with
    | enter pos path =>
      simp only [copyEvent, List.mem_cons, List.not_mem_nil, or_false] at he
      rcases he with rfl | rfl
      · simp [Under]
      · trivial
    | look file path =>
      cases file with
      | none => exact absurd he List.not_mem_nil
      | some file =>
        obtain rfl := List.mem_singleton.mp he
        exact ⟨_, _, rfl⟩
  · unfold copyTranscript at htranscript
    cases hfound : home.transcript id with
    | none =>
      rw [hfound] at htranscript
      obtain rfl := List.mem_singleton.mp htranscript
      simp [Under]
    | some found =>
      rw [hfound] at htranscript
      simp only [List.mem_cons, List.not_mem_nil, or_false] at htranscript
      rcases htranscript with rfl | rfl
      · simp [Under]
      · exact ⟨_, _, rfl⟩
  · trivial

end Home

/-- What was done by the time an operation fails is no more than what was to be done. -/
theorem Fails.dst_sublist {ops done : List (Op α)} (h : Fails ops done) :
    (done.filterMap Op.dst?).Sublist (ops.filterMap Op.dst?) := by
  obtain ⟨before, op, rest, left, rfl, hleft, rfl⟩ := h
  rw [List.filterMap_append, List.filterMap_append]
  refine List.Sublist.append (List.Sublist.refl _) ?_
  cases hleft with
  | nothing => exact List.nil_sublist _
  | dirs p k => exact List.nil_sublist _
  | part src p content part => exact List.Sublist.cons_cons p (List.nil_sublist _)

theorem Fails.under {name : String} {ops done : List (Op α)} (h : Fails ops done)
    (hops : ∀ op ∈ ops, Under name op) : ∀ op ∈ done, Under name op := by
  obtain ⟨before, op, rest, left, rfl, hleft, rfl⟩ := h
  rw [List.forall_mem_append, List.forall_mem_cons] at hops
  rw [List.forall_mem_append]
  refine ⟨hops.1, ?_⟩
  cases hleft with
  | nothing => exact List.forall_mem_nil _
  | dirs p k =>
    rw [List.forall_mem_singleton]
    intro first hfirst
    refine hops.2.1 first ?_
    rw [List.head?_take] at hfirst
    split at hfirst
    · nomatch hfirst
    · exact hfirst
  | part src p content part =>
    rw [List.forall_mem_singleton]
    exact hops.2.1

/-! ## What is left after a failure -/

namespace Disk

variable {d d' : Disk α} {op : Op α} {ops : List (Op α)}

theorem isDir_iff {p : Position} : d.isDir p = true ↔ d p = some .dir := by
  unfold isDir
  split
  next h => exact iff_of_true rfl h
  next h => exact iff_of_false Bool.false_ne_true h

theorem isFile_of_eq {p : Position} {content : α} (h : d p = some (.file content)) :
    d.isFile p = true := by
  rw [isFile, h]

/-- What is there stays, but for the file that is copied to. -/
theorem apply_stays (h : d.apply op = some d') {q : Position} {item : Item α}
    (hq : d q = some item) (hkeep : op.dst? ≠ some q ∨ item = .dir) : d' q = some item := by
  cases op with
  | createDirAll p =>
    rw [apply, Option.ite_none_right_eq_some, Option.some.injEq] at h
    rw [← h.2, createDirAll, if_neg, hq]
    rw [hq]
    exact fun hboth ↦ Bool.false_ne_true hboth.2
  | readDir dir =>
    obtain rfl := Option.some.inj h
    exact hq
  | copy src content p =>
    rw [apply, Option.ite_none_right_eq_some, Option.some.injEq] at h
    obtain ⟨⟨-, hfree⟩, rfl⟩ := h
    -- nothing is copied over a directory
    by_cases hp : q = p
    · rcases hkeep with hne | hdir
      · exact absurd (congrArg some hp.symm) hne
      · rw [hp, hdir] at hq
        rw [isDir_iff.mpr hq] at hfree
        nomatch hfree
    · rw [Function.update_of_ne hp, hq]

theorem stays (h : ops.foldlM apply d = some d') {q : Position} {item : Item α}
    (hq : d q = some item) (hkeep : q ∉ ops.filterMap Op.dst? ∨ item = .dir) :
    d' q = some item := by
  induction ops generalizing d with
  | nil =>
    obtain rfl := Option.some.inj h
    exact hq
  | cons op ops ih =>
    rw [List.foldlM_cons, Option.bind_eq_bind, Option.bind_eq_some_iff] at h
    obtain ⟨d₁, happly, hrest⟩ := h
    refine ih hrest (apply_stays happly hq (hkeep.imp_left fun hnot hdst ↦ ?_))
      (hkeep.imp_left fun hnot hmem ↦ ?_)
    · exact hnot (List.mem_filterMap.mpr ⟨op, List.mem_cons_self, hdst⟩)
    · obtain ⟨op', hop', hdst⟩ := List.mem_filterMap.mp hmem
      exact hnot (List.mem_filterMap.mpr ⟨op', List.mem_cons_of_mem _ hop', hdst⟩)

/-- Operations that make and write nothing new change nothing below `backups`. -/
theorem unchanged {d₀ : Disk α} (h : ops.foldlM apply d = some d')
    (hsame : ∀ q, q ≠ [] → d q = d₀ q) (hstood : ∀ op ∈ ops, Stood d₀ op) :
    ∀ q, q ≠ [] → d' q = d₀ q := by
  induction ops generalizing d with
  | nil =>
    obtain rfl := Option.some.inj h
    exact hsame
  | cons op ops ih =>
    rw [List.foldlM_cons, Option.bind_eq_bind, Option.bind_eq_some_iff] at h
    obtain ⟨d₁, happly, hrest⟩ := h
    rw [List.forall_mem_cons] at hstood
    refine ih hrest (fun q hq ↦ ?_) hstood.2
    have hthis := hstood.1
    cases op with
    | createDirAll p =>
      rw [apply, Option.ite_none_right_eq_some, Option.some.injEq] at happly
      rw [← happly.2, createDirAll, if_neg, hsame q hq]
      intro hmade
      rw [hsame q hq, Option.isNone_iff_eq_none] at hmade
      exact hthis q hmade.1 hq hmade.2
    | readDir dir =>
      obtain rfl := Option.some.inj happly
      exact hsame q hq
    | copy src content p =>
      rw [apply, Option.ite_none_right_eq_some, Option.some.injEq] at happly
      rw [← happly.2]
      by_cases hp : q = p
      · rw [hp, Function.update_self]
        exact hthis.symm
      · rw [Function.update_of_ne hp, hsame q hq]

/-- A directory that is made has every directory on its way. -/
theorem isDir_of_createDirAll {p : Position} (h : d.apply (.createDirAll p) = some d')
    {q : Position} (hq : q <+: p) : d' q = some .dir := by
  rw [apply, Option.ite_none_right_eq_some, Option.some.injEq] at h
  obtain ⟨hfree, rfl⟩ := h
  rw [createDirAll]
  by_cases hnone : (d q).isNone = true
  · rw [if_pos ⟨hq, hnone⟩]
  · rw [if_neg fun hboth ↦ hnone hboth.2]
    have hfile := hfree q.length hq.length_le
    rw [← List.prefix_iff_eq_take.mp hq] at hfile
    cases hitem : d q with
    | none => exact absurd (Option.isNone_iff_eq_none.mpr hitem) hnone
    | some item =>
      cases item with
      | dir => rfl
      | file content =>
        rw [isFile_of_eq hitem] at hfile
        nomatch hfile

end Disk

/-- Where no directory below `backups` is another one in the end, all that was made and written
stood there before. -/
theorem NoFalseCopy.stood {d d' : Disk α} {name : String} {done : List (Op α)}
    (hclean : NoFalseCopy d d') (hunder : ∀ op ∈ done, Under name op)
    (hnodup : (done.filterMap Op.dst?).Nodup) (hrun : done.foldlM Disk.apply d = some d') :
    ∀ op ∈ done, Stood d op := by
  intro op hop
  obtain ⟨before, post, rfl⟩ := List.append_of_mem hop
  rw [List.foldlM_append, Option.bind_eq_bind, Option.bind_eq_some_iff] at hrun
  obtain ⟨d₁, -, hrest⟩ := hrun
  rw [List.foldlM_cons, Option.bind_eq_bind, Option.bind_eq_some_iff] at hrest
  obtain ⟨d₂, happly, hpost⟩ := hrest
  have hthis := hunder op hop
  -- the directory of the snapshot is there to the end once it is there
  have hsame : ∀ path, d₂ [name] = some .dir → d' (name :: path) = d (name :: path) := by
    intro path hdir
    exact hclean name (Disk.isDir_iff.mpr (Disk.stays hpost hdir (.inr rfl))) path
  cases op with
  | readDir dir => trivial
  | createDirAll p =>
    intro q hq hne hnone
    obtain ⟨first, path, rfl⟩ := List.exists_cons_of_ne_nil hne
    obtain ⟨rest, rfl⟩ := hq
    obtain rfl : first = name := hthis first rfl
    have hmade := Disk.isDir_of_createDirAll happly (List.prefix_append _ rest)
    have hdir : d₂ [first] = some .dir := Disk.isDir_of_createDirAll happly ⟨path ++ rest, rfl⟩
    have hthere := Disk.stays hpost hmade (.inr rfl)
    rw [hsame path hdir, hnone] at hthere
    nomatch hthere
  | copy src content p =>
    obtain ⟨slug, rest, rfl⟩ := hthis
    -- no later operation writes to the file
    have hdst : name :: slug :: rest ∉ post.filterMap Op.dst? := by
      have hcons : (Op.copy src content (name :: slug :: rest)).dst? =
          some (name :: slug :: rest) := rfl
      rw [List.filterMap_append, List.filterMap_cons_some hcons, List.nodup_middle,
        List.nodup_cons] at hnodup
      exact fun hmem ↦ hnodup.1 (List.mem_append_right _ hmem)
    have hcopy := happly
    rw [Disk.apply, Option.ite_none_right_eq_some, Option.some.injEq] at hcopy
    obtain ⟨⟨hdirs, -⟩, rfl⟩ := hcopy
    have hparent : d₁ [name] = some .dir := Disk.isDir_iff.mp (hdirs 1 (by simp))
    have hdir := Disk.apply_stays happly hparent (.inr rfl)
    have hthere := Disk.stays hpost (Function.update_self _ _ d₁) (.inl hdst)
    rw [Stood, ← hsame (slug :: rest) hdir, hthere]

/-- Where nothing stands under the name yet, nothing but `backups` itself may be made. -/
theorem stood_iff_of_new {d : Disk α} {name : String} (hnew : ∀ path, d (name :: path) = none)
    {op : Op α} (hop : Under name op) :
    Stood d op ↔ op = .createDirAll [] ∨ ∃ dir, op = .readDir dir := by
  cases op with
  | readDir dir => exact iff_of_true trivial (.inr ⟨dir, rfl⟩)
  | createDirAll p =>
    cases p with
    | nil =>
      refine iff_of_true (fun q hq hne ↦ ?_) (.inl rfl)
      exact absurd (List.prefix_nil.mp hq) hne
    | cons first path =>
      obtain rfl : first = name := hop first rfl
      refine iff_of_false (fun h ↦ ?_) (by simp)
      exact h [first] ⟨path, rfl⟩ (List.cons_ne_nil _ _) (hnew [])
  | copy src content p =>
    obtain ⟨slug, rest, rfl⟩ := hop
    refine iff_of_false (fun h ↦ ?_) (by simp)
    rw [Stood, hnew] at h
    nomatch h

/-- A snapshot that fails leaves only directories that were there, as they were, just when all that
it has made and written by then stood there before. -/
theorem noFalseCopy_iff {home : Home α} {time moment id : String} {d d' : Disk α}
    {done : List (Op α)} (hfails : Fails (home.snapshot (snapshotName time moment) id) done)
    (hrun : done.foldlM Disk.apply d = some d') :
    NoFalseCopy d d' ↔ ∀ op ∈ done, Stood d op := by
  constructor
  · intro hclean
    have hunder := hfails.under (home.under_snapshot (snapshotName time moment) id)
    have hnodup := (home.nodup_snapshot (snapshotName time moment) id).sublist hfails.dst_sublist
    exact hclean.stood hunder hnodup hrun
  · intro hstood other _ path
    exact Disk.unchanged hrun (fun _ _ ↦ rfl) hstood _ (List.cons_ne_nil other path)

/-- One project with two notes and no transcript. -/
def twoNotes : Home String where
  fs :=
    { root := .dir [("-w", .dir [("memory",
        .dir [("MEMORY.md", .file "index"), ("note.md", .file "note")])])]
      distinct := by simp [Node.Distinct, DistinctEntries] }
  links := 40
  projects := []
  backups := ["backups"]

/-- Before the first snapshot there is no `backups`. -/
def noBackups : Disk String := fun _ ↦ none

/-- The copy of the same second, whole. -/
def copied : Disk String
  | [] => some .dir
  | "2026-09-06T01:00:00Z-before-handoff" :: path =>
    match path with
    | [] | ["-w"] | ["-w", "memory"] => some .dir
    | ["-w", "memory", "MEMORY.md"] => some (.file "index")
    | ["-w", "memory", "note.md"] => some (.file "note")
    | _ => none
  | _ => none

/-- A second snapshot under the name of a copy that stands fails at the second note: the copy is as
it was. -/
theorem noFalseCopy_copied : ∃ done d',
    Fails (twoNotes.snapshot (snapshotName "2026-09-06T01:00:00Z" "before-handoff") "s1") done ∧
      done.length = 3 ∧ done.foldlM Disk.apply copied = some d' ∧ NoFalseCopy copied d' := by
  let name := "2026-09-06T01:00:00Z-before-handoff"
  let done : List (Op String) :=
    [.createDirAll [name, "-w", "memory"], .readDir ["-w", "memory"],
      .copy ["-w", "memory", "MEMORY.md"] "index" [name, "-w", "memory", "MEMORY.md"]]
  have hfails :
      Fails (twoNotes.snapshot (snapshotName "2026-09-06T01:00:00Z" "before-handoff") "s1") done :=
    ⟨done, _, _, [], rfl, .nothing _, rfl⟩
  obtain ⟨d', hrun⟩ : ∃ d', done.foldlM Disk.apply copied = some d' :=
    Option.isSome_iff_exists.mp (by decide +kernel)
  refine ⟨done, d', hfails, rfl, hrun, (noFalseCopy_iff hfails hrun).mpr fun op hop ↦ ?_⟩
  simp only [done, List.mem_cons, List.not_mem_nil, or_false] at hop
  rcases hop with rfl | rfl | rfl
  · intro q hq hne
    simp only [List.prefix_cons_iff, List.prefix_nil] at hq
    rcases hq with rfl | ⟨_, rfl, rfl | ⟨_, rfl, rfl | ⟨_, rfl, rfl⟩⟩⟩
    · exact absurd rfl hne
    all_goals exact nofun
  · trivial
  · rfl

/-- Where the second note cannot be copied, the first is left under the name of a snapshot. -/
theorem false_copy_twoNotes : ¬∀ (home : Home String) time moment id d d' done,
    Fails (home.snapshot (snapshotName time moment) id) done →
      done.foldlM Disk.apply d = some d' → NoFalseCopy d d' := by
  intro hall
  let name := snapshotName "2026-09-06T01:00:00Z" "before-handoff"
  let done : List (Op String) :=
    [.createDirAll [name, "-w", "memory"], .readDir ["-w", "memory"],
      .copy ["-w", "memory", "MEMORY.md"] "index" [name, "-w", "memory", "MEMORY.md"]]
  have hfails : Fails (twoNotes.snapshot name "s1") done := ⟨done, _, _, [], rfl, .nothing _, rfl⟩
  obtain ⟨d', hrun⟩ : ∃ d', done.foldlM Disk.apply noBackups = some d' :=
    Option.isSome_iff_exists.mp (by decide)
  have hclean := hall _ _ _ _ _ _ _ hfails hrun name
  -- the first operation has made the directory, which was not there
  have hdir : d' [name] = some .dir := by
    rw [List.foldlM_cons, Option.bind_eq_bind, Option.bind_eq_some_iff] at hrun
    obtain ⟨d₁, happly, hrest⟩ := hrun
    exact Disk.stays hrest (Disk.isDir_of_createDirAll happly ⟨["-w", "memory"], rfl⟩) (.inr rfl)
  have hsame := hclean (Disk.isDir_iff.mpr hdir) []
  rw [hdir] at hsame
  nomatch hsame

end Memory

end Silta
