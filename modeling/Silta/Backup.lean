import Mathlib.Data.Finmap
import Mathlib.Data.String.Basic
import Silta.Lib.Lts
import Silta.Lib.Newest
import Silta.Lib.Table

/-!
# The backup of the store

One call of `siltad backup`, one file operation after the other: the copy in a temporary directory,
the rename to its stamp, and the removal of the oldest copies.  A call that fails or is killed stops
at any of its states.
-/

namespace Silta

namespace Backup

open Lts

def SESSION_FILE : String := "session.json"

def MARKS_FILE : String := "delivered.json"

/-- A name that `stamp` can give. -/
def isStamp (name : String) : Bool :=
  name.utf8ByteSize == 20 && name.toList.getLast? == some 'Z' &&
    name.toList.all fun c ↦ c.isDigit || c == '-' || c == 'T' || c == 'Z'

/-- The name of a temporary directory. -/
def isTemp (name : String) : Bool :=
  name.toList.head? == some '.' && ".tmp".toList.isSuffixOf name.toList

def tmpName (stamp : String) : String := "." ++ stamp ++ ".tmp"

def isDatabase (name : String) : Bool := ".sqlite3".toList.isSuffixOf name.toList

/-- The files of a directory by their names, with contents of type `α`. -/
abbrev Files (α : Type) := String → Option α

/-- What stands under a name. -/
inductive Entry (α : Type)
  | dir (files : Files α)
  | file
  | link

def Entry.isDir {α : Type} : Entry α → Bool
  | .dir _ => true
  | _ => false

/-- The directory that the copies go to. -/
abbrev Backups (α : Type) := Finmap fun _ : String ↦ Entry α

namespace Backups

variable {α : Type} (d : Backups α)

/-- A copy, as far as the name goes. -/
def copyAt (name : String) : Bool := isStamp name && (d.lookup name).any Entry.isDir

def tempAt (name : String) : Bool := isTemp name && (d.lookup name).any Entry.isDir

/-- How many copies have a later stamp. -/
def laterCopies (name : String) : Nat := (d.keys.filter fun n ↦ d.copyAt n ∧ name < n).card

end Backups

/-- What the state directory holds.  There may be no store yet. -/
structure StateDir (α : Type) where
  store : Option (List (String × α))
  session : Option α
  marks : Option α
  names : ((store.getD []).map Prod.fst).Nodup

/-- A complete copy: every database of the store, and the two files beside it. -/
def StateDir.copy {α : Type} (dir : StateDir α) : Files α := fun name ↦
  if isDatabase name then (dir.store.getD []).lookup name
  else if name = SESSION_FILE then dir.session
  else if name = MARKS_FILE then dir.marks
  else none

/-- The arguments of a call; one whose stamp is none is refused at once. -/
structure Call (α : Type) where
  stateDir : StateDir α
  keep : Nat
  stamp : String
  isStamp : Backup.isStamp stamp = true

/-- What a call has seen of the state directory. -/
structure Seen (α : Type) where
  listed : List (String × α)
  session : Option α
  marks : Option α

namespace Seen

variable {α : Type}

/-- The files to copy, in order. -/
def plan (seen : Seen α) : List (String × α) :=
  (seen.listed.filter fun f ↦ isDatabase f.1).mergeSort (fun f g ↦ f.1 ≤ g.1) ++
    (seen.session.map (SESSION_FILE, ·)).toList ++ (seen.marks.map (MARKS_FILE, ·)).toList

/-- An entry that cannot be read is left out of the listing, with all that follow it, and a file
that cannot be looked at counts as none. -/
structure Of (seen : Seen α) (dir : StateDir α) : Prop where
  listed : seen.listed.Subperm (dir.store.getD [])
  session : seen.session = none ∨ seen.session = dir.session
  marks : seen.marks = none ∨ seen.marks = dir.marks

/-- No such error came in the way of a database or of one of the two files. -/
structure Whole (seen : Seen α) (dir : StateDir α) : Prop where
  listed : ∀ f ∈ dir.store.getD [], isDatabase f.1 = true → f ∈ seen.listed
  session : seen.session = dir.session
  marks : seen.marks = dir.marks

end Seen

/-- Where a call stands. -/
inductive Phase (α : Type)
  | entered
  | prepared
  | checked
  | clearing
  | making
  | listing
  | copying (rest : List (String × α))
  | placed
  /-- In the loop over the listing of `to`. -/
  | pruning (names copies : List String)
  | sweeping (name : String) (names copies : List String)
  | choosing (copies : List String)
  | removing (name : String) (copies : List String)
  | returned

structure State (α : Type) where
  «to» : Backups α
  phase : Phase α

def State.start {α : Type} (d : Backups α) : State α := ⟨d, .entered⟩

inductive Label (α : Type)
  | op
  /-- A failed look at the target that counts as its absence. -/
  | unseen
  | listed (seen : Seen α)
  | placed (files : Files α)
  | chose (name : String)

/-- The directory that `remove_dir_all` is at. -/
def Phase.target {α : Type} (stamp : String) : Phase α → Option String
  | .clearing => some (tmpName stamp)
  | .sweeping name _ _ => some name
  | .removing name _ => some name
  | _ => none

inductive Step {α : Type} (call : Call α) : State α → Label α → State α → Prop
  -- `create_dir_all` and `set_permissions`
  | prepare {d : Backups α} : Step call ⟨d, .entered⟩ .op ⟨d, .prepared⟩
  | absent {d : Backups α} (h : d.lookup call.stamp = none) :
      Step call ⟨d, .prepared⟩ .op ⟨d, .checked⟩
  | unseen {d : Backups α} {entry : Entry α} (h : d.lookup call.stamp = some entry) :
      Step call ⟨d, .prepared⟩ .unseen ⟨d, .checked⟩
  | noLeftover {d : Backups α} (h : d.lookup (tmpName call.stamp) = none) :
      Step call ⟨d, .checked⟩ .op ⟨d, .making⟩
  | leftover {d : Backups α} {entry : Entry α}
      (h : d.lookup (tmpName call.stamp) = some entry) :
      Step call ⟨d, .checked⟩ .op ⟨d, .clearing⟩
  -- a directory goes file by file
  | unlink {d : Backups α} {phase : Phase α} {name : String} {files files' : Files α}
      (htarget : phase.target call.stamp = some name) (h : d.lookup name = some (.dir files))
      (hsub : ∀ n, files' n = none ∨ files' n = files n) :
      Step call ⟨d, phase⟩ .op ⟨d.insert name (.dir files'), phase⟩
  -- a file is no directory to remove
  | cleared {d : Backups α} {entry : Entry α}
      (h : d.lookup (tmpName call.stamp) = some entry) (hfile : entry ≠ .file) :
      Step call ⟨d, .clearing⟩ .op ⟨d.erase (tmpName call.stamp), .making⟩
  | make {d : Backups α} (h : d.lookup (tmpName call.stamp) = none) :
      Step call ⟨d, .making⟩ .op
        ⟨d.insert (tmpName call.stamp) (.dir fun _ ↦ none), .listing⟩
  -- the state directory stays as it is, so all that is seen of it is seen at once
  | list {d : Backups α} (seen : Seen α) (h : seen.Of call.stateDir) :
      Step call ⟨d, .listing⟩ (.listed seen) ⟨d, .copying seen.plan⟩
  -- the file is there, and not whole yet
  | write {d : Backups α} {files : Files α} {file : String × α} {rest : List (String × α)}
      (h : d.lookup (tmpName call.stamp) = some (.dir files)) (part : α) :
      Step call ⟨d, .copying (file :: rest)⟩ .op
        ⟨d.insert (tmpName call.stamp) (.dir (Function.update files file.1 (some part))),
          .copying (file :: rest)⟩
  | copied {d : Backups α} {files : Files α} {file : String × α} {rest : List (String × α)}
      (h : d.lookup (tmpName call.stamp) = some (.dir files)) :
      Step call ⟨d, .copying (file :: rest)⟩ .op
        ⟨d.insert (tmpName call.stamp) (.dir (Function.update files file.1 (some file.2))),
          .copying rest⟩
  -- a rename replaces nothing but an empty directory
  | place {d : Backups α} {files : Files α}
      (h : d.lookup (tmpName call.stamp) = some (.dir files))
      (hfree : ∀ entry, d.lookup call.stamp = some entry → entry = .dir fun _ ↦ none) :
      Step call ⟨d, .copying []⟩ (.placed files)
        ⟨(d.insert call.stamp (.dir files)).erase (tmpName call.stamp), .placed⟩
  | scan {d : Backups α} {names : List String} (hnodup : names.Nodup)
      (hall : ∀ n, n ∈ names ↔ n ∈ d) :
      Step call ⟨d, .placed⟩ .op ⟨d, .pruning names []⟩
  | skip {d : Backups α} {name : String} {names copies : List String}
      (htemp : d.tempAt name = false) (hcopy : d.copyAt name = false) :
      Step call ⟨d, .pruning (name :: names) copies⟩ .op ⟨d, .pruning names copies⟩
  | sweep {d : Backups α} {name : String} {names copies : List String}
      (htemp : d.tempAt name = true) :
      Step call ⟨d, .pruning (name :: names) copies⟩ .op ⟨d, .sweeping name names copies⟩
  | swept {d : Backups α} {name : String} {names copies : List String} :
      Step call ⟨d, .sweeping name names copies⟩ .op ⟨d.erase name, .pruning names copies⟩
  | collect {d : Backups α} {name : String} {names copies : List String}
      (htemp : d.tempAt name = false) (hcopy : d.copyAt name = true) :
      Step call ⟨d, .pruning (name :: names) copies⟩ .op
        ⟨d, .pruning names (copies ++ [name])⟩
  | sort {d : Backups α} {copies : List String} :
      Step call ⟨d, .pruning [] copies⟩ .op ⟨d, .choosing (Newest.sort copies)⟩
  | choose {d : Backups α} {name : String} {copies : List String}
      (h : call.keep < (name :: copies).length) :
      Step call ⟨d, .choosing (name :: copies)⟩ (.chose name) ⟨d, .removing name copies⟩
  | removed {d : Backups α} {name : String} {copies : List String} :
      Step call ⟨d, .removing name copies⟩ .op ⟨d.erase name, .choosing copies⟩
  | finish {d : Backups α} {copies : List String} (h : copies.length ≤ call.keep) :
      Step call ⟨d, .choosing copies⟩ .op ⟨d, .returned⟩

/-! ## What the labels of a call say -/

def Label.seen? {α : Type} : Label α → Option (Seen α)
  | .listed seen => some seen
  | _ => none

def Label.files? {α : Type} : Label α → Option (Files α)
  | .placed files => some files
  | _ => none

def Label.name? {α : Type} : Label α → Option String
  | .chose name => some name
  | _ => none

/-- The copy that was put in place, if it was. -/
def placed {α : Type} (ls : List (Label α)) : Option (Files α) := (ls.filterMap Label.files?).head?

/-- The copies that the call has chosen to remove. -/
def chosen {α : Type} (ls : List (Label α)) : List String := ls.filterMap Label.name?

/-! ## Names -/

/-- A stamp begins with no dot. -/
theorem isTemp_of_isStamp {name : String} (h : isStamp name = true) : isTemp name = false := by
  have hall := (Bool.and_eq_true_iff.mp h).2
  rw [List.all_eq_true] at hall
  unfold isTemp
  cases hchars : name.toList with
  | nil => rfl
  | cons c cs =>
    have hc := hall c (by rw [hchars]; exact List.mem_cons_self)
    have hdot : c ≠ '.' := by
      rintro rfl
      exact absurd hc (by decide)
    simp [hdot]

theorem isTemp_tmpName (stamp : String) : isTemp (tmpName stamp) = true := by
  have hchars : (tmpName stamp).toList = '.' :: (stamp.toList ++ ".tmp".toList) := by
    rw [tmpName, String.toList_append, String.toList_append]
    rfl
  have hsuffix : ".tmp".toList.isSuffixOf ('.' :: (stamp.toList ++ ".tmp".toList)) = true :=
    List.isSuffixOf_iff_suffix.mpr ⟨'.' :: stamp.toList, rfl⟩
  rw [isTemp, hchars, hsuffix]
  rfl

theorem tmp_ne_of_isStamp {name : String} (h : isStamp name = true) (stamp : String) :
    name ≠ tmpName stamp := by
  intro heq
  have htemp := isTemp_of_isStamp h
  rw [heq, isTemp_tmpName] at htemp
  nomatch htemp

theorem isDatabase_session : isDatabase SESSION_FILE = false := by decide

theorem isDatabase_marks : isDatabase MARKS_FILE = false := by decide

theorem session_ne_marks : SESSION_FILE ≠ MARKS_FILE := by decide

theorem ne_of_isDatabase {name other : String} (h : isDatabase name = true)
    (hother : isDatabase other = false) : name ≠ other := by
  intro heq
  rw [heq, hother] at h
  nomatch h

/-! ## What is copied -/

namespace Seen

variable {α : Type} {seen : Seen α} {dir : StateDir α}

/-- The file names of a plan. -/
theorem mem_plan {f : String × α} :
    f ∈ seen.plan ↔ (f ∈ seen.listed ∧ isDatabase f.1 = true) ∨
      (f.1 = SESSION_FILE ∧ seen.session = some f.2) ∨
        (f.1 = MARKS_FILE ∧ seen.marks = some f.2) := by
  have hfile : ∀ (name : String) (content : Option α),
      f ∈ (content.map (name, ·)).toList ↔ f.1 = name ∧ content = some f.2 := by
    intro name content
    cases content with
    | none => simp
    | some a =>
      rw [Option.map_some, Option.toList_some, List.mem_singleton, Option.some.injEq, Prod.ext_iff]
      exact and_congr_right fun _ ↦ eq_comm
  rw [plan, List.mem_append, List.mem_append, List.mem_mergeSort, List.mem_filter, hfile, hfile,
    or_assoc]

theorem nodup_plan (h : seen.Of dir) : (seen.plan.map Prod.fst).Nodup := by
  have hlisted : (seen.listed.map Prod.fst).Nodup := by
    obtain ⟨l, hperm, hsub⟩ := h.listed
    exact (hperm.map Prod.fst).nodup_iff.mp (dir.names.sublist (hsub.map Prod.fst))
  have hdatabases : (((seen.listed.filter fun f ↦ isDatabase f.1).mergeSort
      (fun f g ↦ f.1 ≤ g.1)).map Prod.fst).Nodup := by
    refine (((List.mergeSort_perm _ _).map Prod.fst).nodup_iff).mpr ?_
    exact hlisted.sublist (List.filter_sublist.map Prod.fst)
  have hkind : ∀ name ∈ ((seen.listed.filter fun f ↦ isDatabase f.1).mergeSort
      (fun f g ↦ f.1 ≤ g.1)).map Prod.fst, isDatabase name = true := by
    intro name hname
    obtain ⟨f, hf, rfl⟩ := List.mem_map.mp hname
    exact (List.mem_filter.mp (List.mem_mergeSort.mp hf)).2
  rw [plan, List.map_append, List.map_append]
  generalize ((seen.listed.filter fun f ↦ isDatabase f.1).mergeSort
    (fun f g ↦ f.1 ≤ g.1)).map Prod.fst = names at hdatabases hkind
  have hsession : ∀ name ∈ names, name ≠ SESSION_FILE := fun name hmem ↦
    ne_of_isDatabase (hkind name hmem) isDatabase_session
  have hmarks : ∀ name ∈ names, name ≠ MARKS_FILE := fun name hmem ↦
    ne_of_isDatabase (hkind name hmem) isDatabase_marks
  cases seen.session with
  | none =>
    cases seen.marks with
    | none => simpa using hdatabases
    | some marks => simpa [List.nodup_append, hdatabases] using hmarks
  | some session =>
    cases seen.marks with
    | none => simpa [List.nodup_append, hdatabases] using hsession
    | some marks =>
      simp only [Option.map_some, Option.toList_some, List.map_cons, List.map_nil,
        List.append_assoc, List.cons_append, List.nil_append, List.nodup_append]
      refine ⟨hdatabases, by simpa using session_ne_marks, ?_⟩
      intro name hname other hother heq
      rcases List.mem_cons.mp hother with rfl | hother
      · exact hsession name hname heq
      · obtain rfl := List.mem_singleton.mp hother
        exact hmarks name hname heq

/-- Where nothing was lost of the state directory, the files that are copied are a complete copy. -/
theorem plan_copy (h : seen.Of dir) (hwhole : seen.Whole dir) (name : String) :
    seen.plan.lookup name = dir.copy name := by
  refine Option.ext fun a ↦ ?_
  rw [Table.pairs_lookup_eq_some_iff (nodup_plan h), mem_plan]
  dsimp only
  unfold StateDir.copy
  by_cases hdatabase : isDatabase name = true
  · rw [if_pos hdatabase, Table.pairs_lookup_eq_some_iff dir.names]
    constructor
    · rintro (⟨hlisted, -⟩ | ⟨hname, -⟩ | ⟨hname, -⟩)
      · exact h.listed.subset hlisted
      · exact absurd hname (ne_of_isDatabase hdatabase isDatabase_session)
      · exact absurd hname (ne_of_isDatabase hdatabase isDatabase_marks)
    · intro hstore
      exact .inl ⟨hwhole.listed _ hstore hdatabase, hdatabase⟩
  · rw [if_neg hdatabase]
    by_cases hname : name = SESSION_FILE
    · subst hname
      rw [if_pos rfl, hwhole.session]
      simp [isDatabase_session, session_ne_marks]
    · rw [if_neg hname]
      by_cases hother : name = MARKS_FILE
      · subst hother
        rw [if_pos rfl, hwhole.marks]
        simp [isDatabase_marks, session_ne_marks.symm]
      · rw [if_neg hother]
        simp [hdatabase, hname, hother]

end Seen

/-! ## Where a call stands and what it has done -/

section Call

variable {α : Type} {call : Call α} {d₀ d : Backups α} {ls : List (Label α)}

theorem placed_concat (ls : List (Label α)) (l : Label α) :
    placed (ls ++ [l]) = (placed ls).or l.files? := by
  unfold placed
  cases h : l.files? with
  | none => simp [h]
  | some files => simp [h, List.head?_append]

theorem chosen_concat (ls : List (Label α)) (l : Label α) :
    chosen (ls ++ [l]) = chosen ls ++ l.name?.toList := by
  unfold chosen
  cases h : l.name? <;> simp [h]

theorem tempAt_congr {d' : Backups α} {name : String} (h : d.lookup name = d'.lookup name) :
    d.tempAt name = d'.tempAt name := by
  rw [Backups.tempAt, Backups.tempAt, h]

theorem copyAt_congr {d' : Backups α} {name : String} (h : d.lookup name = d'.lookup name) :
    d.copyAt name = d'.copyAt name := by
  rw [Backups.copyAt, Backups.copyAt, h]

theorem tempAt_of_isStamp {name : String} (h : isStamp name = true) : d.tempAt name = false := by
  rw [Backups.tempAt, isTemp_of_isStamp h, Bool.false_and]

/-- A temporary directory has no stamp. -/
theorem copyAt_of_tempAt {name : String} (h : d.tempAt name = true) : d.copyAt name = false := by
  rw [Backups.copyAt, Bool.and_eq_false_iff]
  refine .inl (Bool.eq_false_iff.mpr fun hstamp ↦ ?_)
  rw [tempAt_of_isStamp hstamp] at h
  nomatch h

theorem mem_of_isDir {name : String} (h : (d.lookup name).any Entry.isDir = true) : name ∈ d := by
  rw [← Finmap.lookup_isSome]
  cases hentry : d.lookup name with
  | none =>
    rw [hentry] at h
    nomatch h
  | some entry => rfl

/-- The directory right after the rename. -/
def after (call : Call α) (d₀ : Backups α) (files : Files α) : Backups α :=
  (d₀.insert call.stamp (.dir files)).erase (tmpName call.stamp)

theorem lookup_after (files : Files α) (name : String) :
    (after call d₀ files).lookup name =
      if name = tmpName call.stamp then none
      else if name = call.stamp then some (.dir files)
      else d₀.lookup name := by
  unfold after
  by_cases htmp : name = tmpName call.stamp
  · rw [if_pos htmp, htmp, Finmap.lookup_erase]
  · rw [if_neg htmp, Finmap.lookup_erase_ne htmp]
    by_cases hname : name = call.stamp
    · rw [if_pos hname, hname, Finmap.lookup_insert]
    · rw [if_neg hname, Finmap.lookup_insert_of_ne _ hname]

/-- Before the rename nothing has changed but the temporary directory. -/
structure Early (call : Call α) (d₀ : Backups α) (ls : List (Label α)) (d : Backups α) :
    Prop where
  placed : placed ls = none
  chosen : chosen ls = []
  same : ∀ name, name ≠ tmpName call.stamp → d.lookup name = d₀.lookup name

/-- After the rename the copy is what was seen of the state directory. -/
structure Late (call : Call α) (ls : List (Label α)) (files : Files α) : Prop where
  placed : placed ls = some files
  seen : ∃ seen, .listed seen ∈ ls ∧ seen.Of call.stateDir ∧
    ∀ name, files name = seen.plan.lookup name

/-- The copies in order. -/
structure Sorted (d : Backups α) (copies : List String) : Prop where
  sorted : copies.Pairwise (· < ·)
  mem : ∀ name, name ∈ copies ↔ d.copyAt name = true

/-- The loop over the listing: `seen` are the names it is done with. -/
structure Pruning (d₁ : Backups α) (seen names copies : List String) : Prop where
  nodup : (seen ++ names).Nodup
  mem : ∀ name, name ∈ seen ++ names ↔ name ∈ d₁
  copies : copies = seen.filter fun name ↦ d₁.copyAt name

/-- The removal of the oldest copies: `gone` are those it is done with. -/
structure Choosing (d₁ : Backups α) (keep : Nat) (gone left : List String) : Prop where
  sorted : Sorted d₁ (gone ++ left)
  few : gone.length ≤ (gone ++ left).length - keep

/-- What holds at each place of a call. -/
def Phase.Agrees (call : Call α) (d₀ : Backups α) (ls : List (Label α)) (d : Backups α) :
    Phase α → Prop
  | .entered | .prepared | .checked | .clearing | .making => Early call d₀ ls d
  | .listing => Early call d₀ ls d ∧
      d.lookup (tmpName call.stamp) = some (.dir fun _ ↦ none)
  | .copying rest => Early call d₀ ls d ∧ ∃ seen done files, .listed seen ∈ ls ∧
      seen.Of call.stateDir ∧ seen.plan = done ++ rest ∧
      d.lookup (tmpName call.stamp) = some (.dir files) ∧
      -- the first of the rest may be there in part
      ∀ name, (∀ f ∈ rest.head?, name ≠ f.1) → files name = done.lookup name
  | .placed => ∃ files, Late call ls files ∧ chosen ls = [] ∧
      ∀ name, d.lookup name = (after call d₀ files).lookup name
  | .pruning names copies => ∃ files seen, Late call ls files ∧ chosen ls = [] ∧
      Pruning (after call d₀ files) seen names copies ∧
      ∀ name, d.lookup name = if name ∈ seen ∧ (after call d₀ files).tempAt name then none
        else (after call d₀ files).lookup name
  | .sweeping name names copies => ∃ files seen, Late call ls files ∧ chosen ls = [] ∧
      Pruning (after call d₀ files) seen (name :: names) copies ∧
      (after call d₀ files).tempAt name = true ∧
      ∀ n, n ≠ name → d.lookup n = if n ∈ seen ∧ (after call d₀ files).tempAt n then none
        else (after call d₀ files).lookup n
  | .choosing copies => ∃ files gone, Late call ls files ∧ chosen ls = gone ∧
      Choosing (after call d₀ files) call.keep gone copies ∧
      ∀ name, d.lookup name = if (after call d₀ files).tempAt name ∨ name ∈ gone then none
        else (after call d₀ files).lookup name
  | .removing name copies => ∃ files gone, Late call ls files ∧ chosen ls = gone ++ [name] ∧
      Choosing (after call d₀ files) call.keep (gone ++ [name]) copies ∧
      ∀ n, n ≠ name → d.lookup n = if (after call d₀ files).tempAt n ∨ n ∈ gone then none
        else (after call d₀ files).lookup n
  | .returned => ∃ files gone left, Late call ls files ∧ chosen ls = gone ∧
      Choosing (after call d₀ files) call.keep gone left ∧ left.length ≤ call.keep ∧
      ∀ name, d.lookup name = if (after call d₀ files).tempAt name ∨ name ∈ gone then none
        else (after call d₀ files).lookup name

/-! ## What each step keeps -/

theorem Early.step {l : Label α} {d' : Backups α} (h : Early call d₀ ls d)
    (hfiles : l.files? = none) (hname : l.name? = none)
    (hsame : ∀ name, name ≠ tmpName call.stamp → d'.lookup name = d.lookup name) :
    Early call d₀ (ls ++ [l]) d' where
  placed := by rw [placed_concat, hfiles, h.placed, Option.none_or]
  chosen := by rw [chosen_concat, hname, h.chosen, Option.toList_none, List.append_nil]
  same name hne := (hsame name hne).trans (h.same name hne)

theorem Late.step {l : Label α} {files : Files α} (h : Late call ls files)
    (hfiles : l.files? = none) : Late call (ls ++ [l]) files where
  placed := by rw [placed_concat, hfiles, h.placed, Option.some_or]
  seen := by
    obtain ⟨seen, hmem, hof, heq⟩ := h.seen
    exact ⟨seen, List.mem_append_left _ hmem, hof, heq⟩

theorem chosen_step {l : Label α} {names : List String} (h : chosen ls = names)
    (hname : l.name? = none) : chosen (ls ++ [l]) = names := by
  rw [chosen_concat, h, hname, Option.toList_none, List.append_nil]

/-- The name at hand is not one the loop is done with. -/
theorem Pruning.not_seen {d₁ : Backups α} {name : String} {seen names copies : List String}
    (h : Pruning d₁ seen (name :: names) copies) : name ∉ seen := fun hmem ↦
  (List.nodup_append.mp h.nodup).2.2 name hmem name List.mem_cons_self rfl

/-- Nothing has been done yet under the name at hand. -/
theorem Pruning.lookup_here {d₁ : Backups α} {name : String} {seen names copies : List String}
    (h : Pruning d₁ seen (name :: names) copies)
    (hlookup : ∀ n, d.lookup n = if n ∈ seen ∧ d₁.tempAt n then none else d₁.lookup n) :
    d.lookup name = d₁.lookup name := by
  rw [hlookup, if_neg fun hmem ↦ h.not_seen hmem.1]

/-- Nothing is done under a name that is no temporary directory's. -/
theorem lookup_next {d₁ : Backups α} {name : String} {seen : List String}
    (htemp : d₁.tempAt name = false)
    (hlookup : ∀ n, d.lookup n = if n ∈ seen ∧ d₁.tempAt n then none else d₁.lookup n)
    (n : String) :
    d.lookup n = if n ∈ seen ++ [name] ∧ d₁.tempAt n then none else d₁.lookup n := by
  rw [hlookup]
  refine if_congr (and_congr_left fun hn ↦ ?_) rfl rfl
  have hne : n ≠ name := by
    intro heq
    rw [heq, htemp] at hn
    nomatch hn
  rw [List.mem_append, List.mem_singleton, or_iff_left hne]

/-- The loop goes on to the next name. -/
theorem Pruning.next {d₁ : Backups α} {name : String} {seen names copies : List String}
    (h : Pruning d₁ seen (name :: names) copies) :
    Pruning d₁ (seen ++ [name]) names (copies ++ if d₁.copyAt name then [name] else []) where
  nodup := by simpa using h.nodup
  mem n := by
    rw [← h.mem n]
    simp
  copies := by
    rw [h.copies, List.filter_append]
    by_cases hcopy : d₁.copyAt name = true <;> simp [hcopy]

/-- The loop is over. -/
theorem Pruning.choosing {d₁ : Backups α} {seen copies : List String}
    (h : Pruning d₁ seen [] copies) (keep : Nat) :
    Choosing d₁ keep [] (Newest.sort copies) where
  sorted := by
    have hnodup : seen.Nodup := by simpa using h.nodup
    refine ⟨Newest.pairwise_sort (h.copies ▸ hnodup.filter _), fun name ↦ ?_⟩
    rw [List.nil_append, Newest.mem_sort, h.copies, List.mem_filter]
    refine and_iff_right_of_imp fun hcopy ↦ ?_
    have hmem := (h.mem name).mpr (mem_of_isDir (Bool.and_eq_true_iff.mp hcopy).2)
    rwa [List.append_nil] at hmem
  few := Nat.zero_le _

/-- One more file of the plan is whole. -/
theorem lookup_copied {files : Files α} {done rest : List (String × α)} {file : String × α}
    (hnodup : ((done ++ file :: rest).map Prod.fst).Nodup)
    (hfiles : ∀ name, name ≠ file.1 → files name = done.lookup name) (name : String) :
    Function.update files file.1 (some file.2) name = (done ++ [file]).lookup name := by
  rw [List.lookup_append]
  by_cases hname : name = file.1
  · have hnew : done.lookup file.1 = none := by
      -- no name stands twice in a plan
      rw [List.map_append, List.map_cons, List.nodup_append] at hnodup
      exact Table.pairs_lookup_eq_none_iff.mpr fun hmem ↦
        hnodup.2.2 file.1 hmem file.1 List.mem_cons_self rfl
    rw [hname, Function.update_self, hnew, Option.none_or, List.lookup_cons, beq_self_eq_true]
  · have hother : ([file] : List (String × α)).lookup name = none :=
      Table.pairs_lookup_eq_none_iff.mpr (by simpa using hname)
    rw [Function.update_of_ne hname, hother, Option.or_none]
    exact hfiles name hname

/-- The temporary directory at hand goes. -/
theorem lookup_swept {d₁ : Backups α} {name : String} {seen : List String}
    (htemp : d₁.tempAt name = true)
    (hlookup : ∀ n, n ≠ name →
      d.lookup n = if n ∈ seen ∧ d₁.tempAt n then none else d₁.lookup n) (n : String) :
    (d.erase name).lookup n =
      if n ∈ seen ++ [name] ∧ d₁.tempAt n then none else d₁.lookup n := by
  by_cases hn : n = name
  · have hmem : name ∈ seen ++ [name] := List.mem_append_right _ List.mem_cons_self
    rw [hn, Finmap.lookup_erase, if_pos ⟨hmem, htemp⟩]
  · rw [Finmap.lookup_erase_ne hn, hlookup n hn]
    exact if_congr (by simp [hn]) rfl rfl

/-- The chosen copy goes. -/
theorem lookup_removed {d₁ : Backups α} {name : String} {gone : List String}
    (hlookup : ∀ n, n ≠ name →
      d.lookup n = if d₁.tempAt n ∨ n ∈ gone then none else d₁.lookup n) (n : String) :
    (d.erase name).lookup n =
      if d₁.tempAt n ∨ n ∈ gone ++ [name] then none else d₁.lookup n := by
  by_cases hn : n = name
  · have hmem : name ∈ gone ++ [name] := List.mem_append_right _ List.mem_cons_self
    rw [hn, Finmap.lookup_erase, if_pos (.inr hmem)]
  · rw [Finmap.lookup_erase_ne hn, hlookup n hn]
    exact if_congr (by simp [hn]) rfl rfl

theorem agrees_step {s t : State α} {l : Label α} (hs : s.phase.Agrees call d₀ ls s.to)
    (h : Step call s l t) : t.phase.Agrees call d₀ (ls ++ [l]) t.to := by
  have hinsert : ∀ (d : Backups α) (entry : Entry α) (name : String),
      name ≠ tmpName call.stamp →
        (d.insert (tmpName call.stamp) entry).lookup name = d.lookup name :=
    fun d entry name hne ↦ Finmap.lookup_insert_of_ne _ hne
  have herase : ∀ (d : Backups α) (name : String), name ≠ tmpName call.stamp →
      (d.erase (tmpName call.stamp)).lookup name = d.lookup name :=
    fun d name hne ↦ Finmap.lookup_erase_ne hne
  cases h with
  -- up to the temporary directory, which is all that changes before the rename
  | prepare => exact Early.step hs rfl rfl fun _ _ ↦ rfl
  | absent _ => exact Early.step hs rfl rfl fun _ _ ↦ rfl
  | unseen _ => exact Early.step hs rfl rfl fun _ _ ↦ rfl
  | noLeftover _ => exact Early.step hs rfl rfl fun _ _ ↦ rfl
  | leftover _ => exact Early.step hs rfl rfl fun _ _ ↦ rfl
  | @unlink d phase name files files' htarget hdir hsub =>
    cases phase with
    | clearing =>
      obtain rfl := Option.some.inj htarget
      exact Early.step hs rfl rfl (hinsert d _)
    | sweeping n names copies =>
      obtain rfl := Option.some.inj htarget
      obtain ⟨files, seen, hlate, hchosen, hpruning, htemp, hlookup⟩ := hs
      refine ⟨files, seen, hlate.step rfl, chosen_step hchosen rfl, hpruning, htemp, ?_⟩
      intro m hne
      exact (Finmap.lookup_insert_of_ne _ hne).trans (hlookup m hne)
    | removing n copies =>
      obtain rfl := Option.some.inj htarget
      obtain ⟨files, gone, hlate, hchosen, hchoosing, hlookup⟩ := hs
      refine ⟨files, gone, hlate.step rfl, chosen_step hchosen rfl, hchoosing, ?_⟩
      intro m hne
      exact (Finmap.lookup_insert_of_ne _ hne).trans (hlookup m hne)
    | _ => nomatch htarget
  | @cleared d _ _ _ => exact Early.step hs rfl rfl (herase d)
  | @make d _ =>
    exact ⟨Early.step hs rfl rfl (hinsert d _), Finmap.lookup_insert _⟩
  -- the copy, file by file of the plan
  | @list d seen hof =>
    obtain ⟨hearly, hdir⟩ := hs
    refine ⟨hearly.step rfl rfl fun _ _ ↦ rfl, seen, [], _, by simp, hof, rfl, hdir, ?_⟩
    exact fun _ _ ↦ rfl
  | @write d files file rest hdir part =>
    obtain ⟨hearly, seen, done, files', hseen, hof, hplan, hdir', hfiles⟩ := hs
    obtain rfl : files = files' := Entry.dir.inj (Option.some.inj (hdir.symm.trans hdir'))
    refine ⟨hearly.step rfl rfl (hinsert d _), seen, done, _, List.mem_append_left _ hseen, hof,
      hplan, Finmap.lookup_insert _, fun name hne ↦ ?_⟩
    rw [Function.update_of_ne (hne file rfl)]
    exact hfiles name hne
  | @copied d files file rest hdir =>
    obtain ⟨hearly, seen, done, files', hseen, hof, hplan, hdir', hfiles⟩ := hs
    obtain rfl : files = files' := Entry.dir.inj (Option.some.inj (hdir.symm.trans hdir'))
    have hnodup := Seen.nodup_plan hof
    rw [hplan] at hnodup
    refine ⟨hearly.step rfl rfl (hinsert d _), seen, done ++ [file], _,
      List.mem_append_left _ hseen, hof, by simpa using hplan, Finmap.lookup_insert _, ?_⟩
    intro name _
    refine lookup_copied hnodup (fun other hne ↦ hfiles other fun f hf ↦ ?_) name
    rwa [← Option.some.inj hf]
  | @place d files hdir _ =>
    obtain ⟨hearly, seen, done, files', hseen, hof, hplan, hdir', hfiles⟩ := hs
    obtain rfl : files = files' := Entry.dir.inj (Option.some.inj (hdir.symm.trans hdir'))
    refine ⟨files, ⟨?_, seen, List.mem_append_left _ hseen, hof, fun name ↦ ?_⟩,
      chosen_step hearly.chosen rfl, fun name ↦ ?_⟩
    · rw [placed_concat, hearly.placed, Option.none_or]
      rfl
    · rw [hplan, List.append_nil]
      exact hfiles name nofun
    · show (after call d files).lookup name = _
      rw [lookup_after, lookup_after]
      by_cases htmp : name = tmpName call.stamp
      · rw [if_pos htmp, if_pos htmp]
      · rw [if_neg htmp, if_neg htmp, hearly.same name htmp]
  -- the loop of `prune` over the listing
  | @scan d names hnodup hall =>
    obtain ⟨files, hlate, hchosen, hlookup⟩ := hs
    refine ⟨files, [], hlate.step rfl, chosen_step hchosen rfl, ⟨hnodup, fun name ↦ ?_, rfl⟩, ?_⟩
    · rw [List.nil_append, hall, ← Finmap.lookup_isSome, ← Finmap.lookup_isSome, hlookup]
    · intro name
      simpa using hlookup name
  | @skip d name names copies htemp hcopy =>
    obtain ⟨files, seen, hlate, hchosen, hpruning, hlookup⟩ := hs
    have hhere := hpruning.lookup_here hlookup
    rw [tempAt_congr hhere] at htemp
    rw [copyAt_congr hhere] at hcopy
    have hnext := hpruning.next
    rw [hcopy, if_neg Bool.false_ne_true, List.append_nil] at hnext
    exact ⟨files, _, hlate.step rfl, chosen_step hchosen rfl, hnext, lookup_next htemp hlookup⟩
  | @sweep d name names copies htemp =>
    obtain ⟨files, seen, hlate, hchosen, hpruning, hlookup⟩ := hs
    have hhere := hpruning.lookup_here hlookup
    rw [tempAt_congr hhere] at htemp
    exact ⟨files, seen, hlate.step rfl, chosen_step hchosen rfl, hpruning, htemp,
      fun n _ ↦ hlookup n⟩
  | @swept d name names copies =>
    obtain ⟨files, seen, hlate, hchosen, hpruning, htemp, hlookup⟩ := hs
    have hnext := hpruning.next
    rw [copyAt_of_tempAt htemp, if_neg Bool.false_ne_true, List.append_nil] at hnext
    exact ⟨files, _, hlate.step rfl, chosen_step hchosen rfl, hnext, lookup_swept htemp hlookup⟩
  | @collect d name names copies htemp hcopy =>
    obtain ⟨files, seen, hlate, hchosen, hpruning, hlookup⟩ := hs
    have hhere := hpruning.lookup_here hlookup
    rw [tempAt_congr hhere] at htemp
    rw [copyAt_congr hhere] at hcopy
    have hnext := hpruning.next
    rw [hcopy, if_pos rfl] at hnext
    exact ⟨files, _, hlate.step rfl, chosen_step hchosen rfl, hnext, lookup_next htemp hlookup⟩
  | @sort d copies =>
    obtain ⟨files, seen, hlate, hchosen, hpruning, hlookup⟩ := hs
    refine ⟨files, [], hlate.step rfl, chosen_step hchosen rfl, hpruning.choosing call.keep, ?_⟩
    intro n
    rw [hlookup]
    refine if_congr ?_ rfl rfl
    rw [or_iff_left List.not_mem_nil]
    refine and_iff_right_of_imp fun htemp ↦ ?_
    have hmem := (hpruning.mem n).mpr (mem_of_isDir (Bool.and_eq_true_iff.mp htemp).2)
    rwa [List.append_nil] at hmem
  -- the removal of the oldest copies
  | @choose d name copies hkeep =>
    obtain ⟨files, gone, hlate, hchosen, hchoosing, hlookup⟩ := hs
    refine ⟨files, gone, hlate.step rfl, ?_, ⟨?_, ?_⟩, fun n _ ↦ hlookup n⟩
    · rw [chosen_concat, hchosen]
      rfl
    · rw [List.append_assoc]
      exact hchoosing.sorted
    · simp only [List.length_append, List.length_cons, List.length_nil] at hkeep ⊢
      omega
  | @removed d name copies =>
    obtain ⟨files, gone, hlate, hchosen, hchoosing, hlookup⟩ := hs
    exact ⟨files, gone ++ [name], hlate.step rfl, chosen_step hchosen rfl, hchoosing,
      lookup_removed hlookup⟩
  | @finish d copies hkeep =>
    obtain ⟨files, gone, hlate, hchosen, hchoosing, hlookup⟩ := hs
    exact ⟨files, gone, copies, hlate.step rfl, chosen_step hchosen rfl, hchoosing, hkeep, hlookup⟩

theorem agrees_of_run {s : State α} (h : Run (Step call) (.start d₀) ls s) :
    s.phase.Agrees call d₀ ls s.to := by
  refine h.history (I := fun ls s ↦ s.phase.Agrees call d₀ ls s.to) ?_ fun _ _ _ _ ↦ agrees_step
  exact ⟨rfl, rfl, fun _ _ ↦ rfl⟩

/-! ## What a call has done wherever it stops -/

theorem Sorted.laterCopies_eq {copies : List String} (h : Sorted d copies) (name : String) :
    d.laterCopies name = Newest.later copies name := by
  have hkeys : (d.keys.filter fun n ↦ d.copyAt n ∧ name < n) =
      (copies.filter fun n ↦ name < n).toFinset := by
    ext n
    rw [Finset.mem_filter, List.mem_toFinset, List.mem_filter, h.mem, decide_eq_true_eq,
      Finmap.mem_keys]
    exact and_iff_right_of_imp fun hn ↦ mem_of_isDir (Bool.and_eq_true_iff.mp hn.1).2
  have hnodup : copies.Nodup := h.sorted.imp fun hlt ↦ hlt.ne
  rw [Backups.laterCopies, hkeys, List.toFinset_card_of_nodup (hnodup.filter _), Newest.later]

/-- A copy with enough later ones. -/
def Old (d : Backups α) (keep : Nat) (name : String) : Prop :=
  d.copyAt name = true ∧ keep ≤ d.laterCopies name

instance (d : Backups α) (keep : Nat) (name : String) : Decidable (Old d keep name) :=
  inferInstanceAs (Decidable (_ ∧ _))

theorem Sorted.mem_take_iff {copies : List String} (h : Sorted d copies) (keep : Nat)
    (name : String) : name ∈ copies.take (copies.length - keep) ↔ Old d keep name := by
  by_cases hmem : name ∈ copies
  · rw [Newest.mem_take_iff h.sorted hmem, Old, h.laterCopies_eq]
    exact (and_iff_right ((h.mem name).mp hmem)).symm
  · refine iff_of_false (mt List.mem_of_mem_take hmem) fun hold ↦ hmem ?_
    exact (h.mem name).mpr hold.1

/-- What is chosen is old. -/
theorem Choosing.old {keep : Nat} {gone left : List String} (h : Choosing d keep gone left)
    {name : String} (hmem : name ∈ gone) : Old d keep name := by
  rw [← h.sorted.mem_take_iff]
  have htake : (gone ++ left).take gone.length = gone := List.take_left
  have hfew := h.few
  exact (List.take_subset_take_left (gone ++ left) hfew) (htake.symm ▸ hmem)

/-- In the end all that is old was chosen. -/
theorem Choosing.mem_gone_iff {keep : Nat} {gone left : List String} (h : Choosing d keep gone left)
    (hleft : left.length ≤ keep) (name : String) : name ∈ gone ↔ Old d keep name := by
  -- with no more left than are kept, none is missing from those gone
  have hlength : (gone ++ left).length - keep = gone.length := by
    have hfew := h.few
    rw [List.length_append] at hfew ⊢
    omega
  rw [← h.sorted.mem_take_iff, hlength, List.take_left]

/-- What a call has done to the directory where it stops: before the rename, something to its
temporary directory only; after it, nothing but the copy to what it keeps, and the removal of
temporary directories and old copies, which in the end are all gone. -/
structure Outcome (call : Call α) (d₀ : Backups α) (ls : List (Label α)) (s : State α) : Prop where
  early : placed ls = none → chosen ls = [] ∧
    ∀ name, name ≠ tmpName call.stamp → s.to.lookup name = d₀.lookup name
  kept : ∀ files, placed ls = some files → ∀ name, name ∉ chosen ls →
    (after call d₀ files).tempAt name = false →
      s.to.lookup name = (after call d₀ files).lookup name
  old : ∀ files, placed ls = some files → ∀ name ∈ chosen ls,
    Old (after call d₀ files) call.keep name
  returned : s.phase = .returned → ∃ files, placed ls = some files ∧ ∀ name,
    s.to.lookup name =
      if (after call d₀ files).tempAt name = true ∨ Old (after call d₀ files) call.keep name then
        none
      else (after call d₀ files).lookup name

theorem Outcome.of_early {s : State α} (h : Early call d₀ ls s.to) (hphase : s.phase ≠ .returned) :
    Outcome call d₀ ls s where
  early _ := ⟨h.chosen, h.same⟩
  kept files hplaced := by
    rw [h.placed] at hplaced
    nomatch hplaced
  old files hplaced := by
    rw [h.placed] at hplaced
    nomatch hplaced
  returned hreturned := absurd hreturned hphase

theorem Outcome.of_late {s : State α} {files : Files α} (h : Late call ls files)
    (hkept : ∀ name, name ∉ chosen ls → (after call d₀ files).tempAt name = false →
      s.to.lookup name = (after call d₀ files).lookup name)
    (hold : ∀ name ∈ chosen ls, Old (after call d₀ files) call.keep name)
    (hphase : s.phase ≠ .returned) : Outcome call d₀ ls s where
  early hnone := by
    rw [h.placed] at hnone
    nomatch hnone
  kept files' hplaced := by
    obtain rfl := Option.some.inj (h.placed.symm.trans hplaced)
    exact hkept
  old files' hplaced := by
    obtain rfl := Option.some.inj (h.placed.symm.trans hplaced)
    exact hold
  returned hreturned := absurd hreturned hphase

theorem outcome_of_run {s : State α} (h : Run (Step call) (.start d₀) ls s) :
    Outcome call d₀ ls s := by
  obtain ⟨d, phase⟩ := s
  have hs := agrees_of_run h
  cases phase with
  | entered => exact .of_early hs nofun
  | prepared => exact .of_early hs nofun
  | checked => exact .of_early hs nofun
  | clearing => exact .of_early hs nofun
  | making => exact .of_early hs nofun
  | listing => exact .of_early hs.1 nofun
  | copying rest => exact .of_early hs.1 nofun
  | placed =>
    obtain ⟨files, hlate, hchosen, hlookup⟩ := hs
    exact .of_late hlate (fun name _ _ ↦ hlookup name) (by simp [hchosen]) nofun
  | pruning names copies =>
    obtain ⟨files, seen, hlate, hchosen, -, hlookup⟩ := hs
    refine .of_late hlate (fun name _ htemp ↦ ?_) (by simp [hchosen]) nofun
    rw [hlookup, if_neg]
    simp [htemp]
  | sweeping name names copies =>
    obtain ⟨files, seen, hlate, hchosen, -, hself, hlookup⟩ := hs
    refine .of_late hlate (fun n _ htemp ↦ ?_) (by simp [hchosen]) nofun
    have hne : n ≠ name := by
      rintro rfl
      rw [hself] at htemp
      nomatch htemp
    rw [hlookup n hne, if_neg]
    simp [htemp]
  | choosing copies =>
    obtain ⟨files, gone, hlate, hchosen, hchoosing, hlookup⟩ := hs
    refine .of_late hlate (fun n hn htemp ↦ ?_) (fun n hn ↦ ?_) nofun
    · rw [hchosen] at hn
      rw [hlookup, if_neg]
      simp [htemp, hn]
    · exact hchoosing.old (hchosen ▸ hn)
  | removing name copies =>
    obtain ⟨files, gone, hlate, hchosen, hchoosing, hlookup⟩ := hs
    refine .of_late hlate (fun n hn htemp ↦ ?_) (fun n hn ↦ ?_) nofun
    · rw [hchosen, List.mem_append, List.mem_singleton, not_or] at hn
      rw [hlookup n hn.2, if_neg]
      simp [htemp, hn.1]
    · exact hchoosing.old (hchosen ▸ hn)
  | returned =>
    obtain ⟨files, gone, left, hlate, hchosen, hchoosing, hleft, hlookup⟩ := hs
    have hgone := hchoosing.mem_gone_iff hleft
    refine ⟨fun hnone ↦ ?_, fun files' hplaced name hn htemp ↦ ?_, fun files' hplaced name hn ↦ ?_,
      fun _ ↦ ⟨files, hlate.placed, fun name ↦ ?_⟩⟩
    · rw [hlate.placed] at hnone
      nomatch hnone
    · obtain rfl := Option.some.inj (hlate.placed.symm.trans hplaced)
      rw [hchosen] at hn
      rw [hlookup, if_neg]
      simp [htemp, hn]
    · obtain rfl := Option.some.inj (hlate.placed.symm.trans hplaced)
      exact hchoosing.old (hchosen ▸ hn)
    · rw [hlookup]
      exact if_congr (or_congr_right (hgone name)) rfl rfl

/-! ## The new copy -/

/-- The new copy and the temporary directory are not later than the new copy. -/
theorem laterCopies_after (files : Files α) :
    (after call d₀ files).laterCopies call.stamp = d₀.laterCopies call.stamp := by
  have hsame : ∀ name, isStamp name = true → call.stamp < name →
      (after call d₀ files).lookup name = d₀.lookup name := by
    intro name hstamp hlater
    rw [lookup_after, if_neg (tmp_ne_of_isStamp hstamp _), if_neg hlater.ne']
  have hkeys : ((after call d₀ files).keys.filter fun n ↦
      (after call d₀ files).copyAt n ∧ call.stamp < n) =
        d₀.keys.filter fun n ↦ d₀.copyAt n ∧ call.stamp < n := by
    ext n
    rw [Finset.mem_filter, Finset.mem_filter, Finmap.mem_keys, Finmap.mem_keys]
    constructor
    · rintro ⟨-, hcopy, hlater⟩
      rw [copyAt_congr (hsame n (Bool.and_eq_true_iff.mp hcopy).1 hlater)] at hcopy
      exact ⟨mem_of_isDir (Bool.and_eq_true_iff.mp hcopy).2, hcopy, hlater⟩
    · rintro ⟨-, hcopy, hlater⟩
      rw [← copyAt_congr (hsame n (Bool.and_eq_true_iff.mp hcopy).1 hlater)] at hcopy
      exact ⟨mem_of_isDir (Bool.and_eq_true_iff.mp hcopy).2, hcopy, hlater⟩
  rw [Backups.laterCopies, Backups.laterCopies, hkeys]

theorem lookup_after_stamp (files : Files α) :
    (after call d₀ files).lookup call.stamp = some (.dir files) := by
  rw [lookup_after, if_neg (tmp_ne_of_isStamp call.isStamp _), if_pos rfl]

theorem copyAt_after_stamp (files : Files α) : (after call d₀ files).copyAt call.stamp = true := by
  rw [Backups.copyAt, lookup_after_stamp, call.isStamp]
  rfl

/-- Where one copy is kept, a new one makes the copies before it old. -/
theorem old_after {name : String} (hkeep : call.keep ≤ 1) (hcopy : d₀.copyAt name = true)
    (hearlier : name < call.stamp) (files : Files α) :
    Old (after call d₀ files) call.keep name := by
  have hstamp := (Bool.and_eq_true_iff.mp hcopy).1
  have hsame : (after call d₀ files).lookup name = d₀.lookup name := by
    rw [lookup_after, if_neg (tmp_ne_of_isStamp hstamp _), if_neg hearlier.ne]
  have hnew : (after call d₀ files).copyAt call.stamp = true := copyAt_after_stamp files
  refine ⟨by rw [copyAt_congr hsame, hcopy], hkeep.trans (Finset.card_pos.mpr ⟨call.stamp, ?_⟩)⟩
  exact Finset.mem_filter.mpr ⟨Finmap.mem_keys.mpr (mem_of_isDir (Bool.and_eq_true_iff.mp hnew).2),
    hnew, hearlier⟩

/-- What stands under the stamp of a call that returns. -/
theorem lookup_returned {s : State α} (h : Run (Step call) (.start d₀) ls s)
    (hreturned : s.phase = .returned) :
    ∃ files, placed ls = some files ∧ s.to.lookup call.stamp =
      if call.keep ≤ d₀.laterCopies call.stamp then none else some (.dir files) := by
  obtain ⟨files, hplaced, hlookup⟩ := (outcome_of_run h).returned hreturned
  have htemp : (after call d₀ files).tempAt call.stamp = false := tempAt_of_isStamp call.isStamp
  have hold : Old (after call d₀ files) call.keep call.stamp ↔
      call.keep ≤ d₀.laterCopies call.stamp := by
    rw [Old, laterCopies_after]
    exact and_iff_right (copyAt_after_stamp files)
  refine ⟨files, hplaced, ?_⟩
  rw [hlookup, lookup_after_stamp]
  exact if_congr (by rw [hold, htemp]; simp) rfl rfl

/-- A call that returns its path has left the new copy there just when fewer copies than it keeps
have a later stamp. -/
theorem returned_iff {s : State α} (h : Run (Step call) (.start d₀) ls s)
    (hreturned : s.phase = .returned) :
    (∃ files, placed ls = some files ∧ s.to.lookup call.stamp = some (.dir files)) ↔
      d₀.laterCopies call.stamp < call.keep := by
  obtain ⟨files, hplaced, hlookup⟩ := lookup_returned h hreturned
  by_cases hkeep : call.keep ≤ d₀.laterCopies call.stamp
  · rw [if_pos hkeep] at hlookup
    refine iff_of_false ?_ (not_lt.mpr hkeep)
    rintro ⟨files', -, hlookup'⟩
    rw [hlookup] at hlookup'
    nomatch hlookup'
  · rw [if_neg hkeep] at hlookup
    exact iff_of_true ⟨files, hplaced, hlookup⟩ (not_le.mp hkeep)

/-! ## A call without errors -/

/-- Nothing of the state directory is seen in these steps. -/
def Blind (ls : List (Label α)) : Prop := ∀ l ∈ ls, l.seen? = none

theorem Blind.append {ms : List (Label α)} (h : Blind ls) (h' : Blind ms) : Blind (ls ++ ms) :=
  List.forall_mem_append.mpr ⟨h, h'⟩

theorem Blind.single {l : Label α} (h : l.seen? = none) : Blind [l] :=
  List.forall_mem_singleton.mpr h

/-- Some steps lead from one state to the other, without a look at the state directory. -/
def Leads (call : Call α) (s t : State α) : Prop := ∃ ls, Run (Step call) s ls t ∧ Blind ls

theorem Leads.refl (s : State α) : Leads call s s := ⟨[], .nil s, nofun⟩

theorem Leads.trans {s t u : State α} (h : Leads call s t) (h' : Leads call t u) :
    Leads call s u := by
  obtain ⟨ls, hrun, hblind⟩ := h
  obtain ⟨ms, hrun', hblind'⟩ := h'
  exact ⟨ls ++ ms, hrun.append hrun', hblind.append hblind'⟩

theorem Leads.single {s t : State α} {l : Label α} (h : Step call s l t) (hl : l.seen? = none) :
    Leads call s t :=
  ⟨[l], .single h, .single hl⟩

theorem leads_listing (habsent : d.lookup call.stamp = none)
    (htmp : d.lookup (tmpName call.stamp) ≠ some .file) :
    ∃ d', Leads call (.start d) ⟨d', .listing⟩ ∧
      d'.lookup (tmpName call.stamp) = some (.dir fun _ ↦ none) := by
  have hchecked : Leads call (.start d) ⟨d, .checked⟩ :=
    (Leads.single .prepare rfl).trans (.single (.absent habsent) rfl)
  cases hentry : d.lookup (tmpName call.stamp) with
  | none =>
    refine ⟨_, (hchecked.trans (.single (.noLeftover hentry) rfl)).trans
      (.single (.make hentry) rfl), Finmap.lookup_insert _⟩
  | some entry =>
    rw [hentry] at htmp
    have hfile : entry ≠ .file := fun heq ↦ htmp (congrArg some heq)
    refine ⟨_, ((hchecked.trans (.single (.leftover hentry) rfl)).trans
      (.single (.cleared hentry hfile) rfl)).trans
        (.single (.make (Finmap.lookup_erase _ _)) rfl), Finmap.lookup_insert _⟩

variable (call) in
theorem leads_copied (rest : List (String × α)) {files : Files α}
    (hdir : d.lookup (tmpName call.stamp) = some (.dir files)) :
    ∃ d' files', Leads call ⟨d, .copying rest⟩ ⟨d', .copying []⟩ ∧
      d'.lookup (tmpName call.stamp) = some (.dir files') := by
  induction rest generalizing d files with
  | nil => exact ⟨d, files, .refl _, hdir⟩
  | cons file rest ih =>
    have hinsert := Finmap.lookup_insert (a := tmpName call.stamp)
      (b := (.dir (Function.update files file.1 (some file.2)) : Entry α)) d
    obtain ⟨d', files', hleads, hdir'⟩ := ih hinsert
    exact ⟨d', files', (Leads.single (.copied hdir) rfl).trans hleads, hdir'⟩

variable (call) in
theorem leads_chosen (names copies : List String) :
    ∃ d' copies', Leads call ⟨d, .pruning names copies⟩ ⟨d', .choosing copies'⟩ := by
  induction names generalizing d copies with
  | nil => exact ⟨d, _, .single .sort rfl⟩
  | cons name names ih =>
    cases htemp : d.tempAt name with
    | true =>
      obtain ⟨d', copies', hleads⟩ := ih (d := d.erase name) copies
      have hswept : Leads call ⟨d, .pruning (name :: names) copies⟩
          ⟨d.erase name, .pruning names copies⟩ :=
        (Leads.single (.sweep htemp) rfl).trans (.single .swept rfl)
      exact ⟨d', copies', hswept.trans hleads⟩
    | false =>
      cases hcopy : d.copyAt name with
      | true =>
        obtain ⟨d', copies', hleads⟩ := ih (d := d) (copies ++ [name])
        exact ⟨d', copies', (Leads.single (.collect htemp hcopy) rfl).trans hleads⟩
      | false =>
        obtain ⟨d', copies', hleads⟩ := ih (d := d) copies
        exact ⟨d', copies', (Leads.single (.skip htemp hcopy) rfl).trans hleads⟩

variable (call) in
theorem leads_returned (copies : List String) :
    ∃ d', Leads call ⟨d, .choosing copies⟩ ⟨d', .returned⟩ := by
  induction copies generalizing d with
  | nil => exact ⟨d, .single (.finish (Nat.zero_le _)) rfl⟩
  | cons name copies ih =>
    by_cases hkeep : (name :: copies).length ≤ call.keep
    · exact ⟨d, .single (.finish hkeep) rfl⟩
    · obtain ⟨d', hleads⟩ := ih (d := d.erase name)
      exact ⟨d', ((Leads.single (.choose (not_le.mp hkeep)) rfl).trans
        (.single .removed rfl)).trans hleads⟩

/-- A call in whose way no error comes returns, whatever an earlier one has left in its temporary
directory. -/
theorem exists_returned {seen : Seen α} (hof : seen.Of call.stateDir)
    (habsent : d.lookup call.stamp = none)
    (htmp : d.lookup (tmpName call.stamp) ≠ some .file) :
    ∃ ls s, Run (Step call) (.start d) ls s ∧ s.phase = .returned ∧
      ∀ seen', .listed seen' ∈ ls → seen' = seen := by
  obtain ⟨d₁, ⟨ls₁, hrun₁, hblind₁⟩, hdir⟩ := leads_listing habsent htmp
  obtain ⟨d₂, files, ⟨ls₂, hrun₂, hblind₂⟩, hdir₂⟩ := leads_copied call seen.plan hdir
  have hcopied := (hrun₁.snoc (.list seen hof)).append hrun₂
  have hfree : ∀ entry, d₂.lookup call.stamp = some entry → entry = .dir fun _ ↦ none := by
    intro entry hentry
    have hsame := (agrees_of_run hcopied).1.same call.stamp (tmp_ne_of_isStamp call.isStamp _)
    dsimp only at hsame
    rw [hsame, habsent] at hentry
    nomatch hentry
  obtain ⟨d₃, copies, ⟨ls₃, hrun₃, hblind₃⟩⟩ := leads_chosen call
    (d := (d₂.insert call.stamp (.dir files)).erase (tmpName call.stamp))
    ((d₂.insert call.stamp (.dir files)).erase (tmpName call.stamp)).keys.toList []
  obtain ⟨d₄, ⟨ls₄, hrun₄, hblind₄⟩⟩ := leads_returned call (d := d₃) copies
  have hscan := (hcopied.snoc (.place hdir₂ hfree)).snoc
    (.scan (Finset.nodup_toList _) fun n ↦ Finset.mem_toList.trans Finmap.mem_keys)
  refine ⟨_, _, (hscan.append hrun₃).append hrun₄, rfl, fun seen' hmem ↦ ?_⟩
  have hblind : ∀ {ms : List (Label α)}, Blind ms → .listed seen' ∉ ms := fun h hmem ↦
    Option.some_ne_none _ (h _ hmem)
  simp only [List.mem_append, List.mem_singleton, reduceCtorEq, or_false] at hmem
  rcases hmem with (((hmem | hmem) | hmem) | hmem) | hmem
  · exact absurd hmem (hblind hblind₁)
  · exact Label.listed.inj hmem
  · exact absurd hmem (hblind hblind₂)
  · exact absurd hmem (hblind hblind₃)
  · exact absurd hmem (hblind hblind₄)

/-! ## One call after the other -/

/-- A call that is over, with what it did. -/
structure Past (α : Type) where
  call : Call α
  labels : List (Label α)

/-- No error lost a file of the state directory to the call. -/
def Whole (call : Call α) (ls : List (Label α)) : Prop :=
  ∀ seen, .listed seen ∈ ls → seen.Whole call.stateDir

/-- Calls with arguments of their own, each of which returned, failed or was killed at any point. -/
inductive Calls : Backups α → List (Past α) → Backups α → Prop
  | nil (d : Backups α) : Calls d [] d
  | snoc {d₀ d : Backups α} {ps : List (Past α)} {call : Call α} {ls : List (Label α)}
      {s : State α} : Calls d₀ ps d → Run (Step call) (.start d) ls s →
        Calls d₀ (ps ++ [⟨call, ls⟩]) s.to

/-- The last call that had to do with the name has chosen it to be removed. -/
def Removed (ps : List (Past α)) (name : String) : Prop :=
  ∃ before p after, ps = before ++ p :: after ∧ name ∈ chosen p.labels ∧
    ∀ q ∈ after, q.call.stamp = name → placed q.labels = none

/-- The files under a stamp were there before, or are a complete copy that a call has put in place,
or a call has chosen them to be removed. -/
def Accounted (d₀ : Backups α) (ps : List (Past α)) (name : String) (files : Files α) : Prop :=
  d₀.lookup name = some (.dir files) ∨
    (∃ p ∈ ps, p.call.stamp = name ∧ files = p.call.stateDir.copy) ∨ Removed ps name

theorem Accounted.snoc {ps : List (Past α)} {p : Past α} {name : String} {files : Files α}
    (h : Accounted d₀ ps name files) (hp : p.call.stamp = name → placed p.labels = none) :
    Accounted d₀ (ps ++ [p]) name files := by
  rcases h with hold | ⟨q, hq, hcopy⟩ | ⟨before, q, after, rfl, hchosen, hafter⟩
  · exact .inl hold
  · exact .inr (.inl ⟨q, List.mem_append_left _ hq, hcopy⟩)
  · refine .inr (.inr ⟨before, q, after ++ [p], by simp, hchosen, ?_⟩)
    rw [List.forall_mem_append, List.forall_mem_singleton]
    exact ⟨hafter, hp⟩

theorem late_of_placed {s : State α} {files : Files α} (h : Run (Step call) (.start d₀) ls s)
    (hplaced : placed ls = some files) : Late call ls files := by
  obtain ⟨d, phase⟩ := s
  have hs := agrees_of_run h
  have hlate : ∀ {files'}, Late call ls files' → Late call ls files := by
    intro files' hfiles'
    obtain rfl := Option.some.inj (hfiles'.placed.symm.trans hplaced)
    exact hfiles'
  have hearly : Early call d₀ ls d → Late call ls files := by
    intro hnone
    rw [hnone.placed] at hplaced
    nomatch hplaced
  cases phase with
  | listing => exact hearly hs.1
  | copying rest => exact hearly hs.1
  | placed => exact hlate hs.choose_spec.1
  | pruning names copies =>
    obtain ⟨_, _, hfiles', -⟩ := hs
    exact hlate hfiles'
  | sweeping name names copies =>
    obtain ⟨_, _, hfiles', -⟩ := hs
    exact hlate hfiles'
  | choosing copies =>
    obtain ⟨_, _, hfiles', -⟩ := hs
    exact hlate hfiles'
  | removing name copies =>
    obtain ⟨_, _, hfiles', -⟩ := hs
    exact hlate hfiles'
  | returned =>
    obtain ⟨_, _, _, hfiles', -⟩ := hs
    exact hlate hfiles'
  | _ => exact hearly hs

/-- What is put in place is a complete copy where no file was lost to an error. -/
theorem placed_eq_copy {s : State α} {files : Files α} (h : Run (Step call) (.start d₀) ls s)
    (hplaced : placed ls = some files) (hwhole : Whole call ls) : files = call.stateDir.copy := by
  obtain ⟨seen, hmem, hof, hfiles⟩ := (late_of_placed h hplaced).seen
  funext name
  rw [hfiles, Seen.plan_copy hof (hwhole seen hmem)]

theorem accounted_of_calls {ps : List (Past α)} (h : Calls d₀ ps d)
    (hwhole : ∀ p ∈ ps, Whole p.call p.labels) {name : String} (hstamp : isStamp name = true)
    {files : Files α} (hdir : d.lookup name = some (.dir files)) : Accounted d₀ ps name files := by
  induction h with
  | nil => exact .inl hdir
  | @snoc d ps call ls s _ hrun ih =>
    rw [List.forall_mem_append, List.forall_mem_singleton] at hwhole
    have houtcome := outcome_of_run hrun
    have htmp := tmp_ne_of_isStamp hstamp call.stamp
    cases hplaced : placed ls with
    | none =>
      rw [(houtcome.early hplaced).2 name htmp] at hdir
      exact (ih hwhole.1 hdir).snoc fun _ ↦ hplaced
    -- the call has put its copy in place: it has removed the name, kept it or made it
    | some copy =>
      by_cases hchosen : name ∈ chosen ls
      · exact .inr (.inr ⟨ps, ⟨call, ls⟩, [], rfl, hchosen, nofun⟩)
      · rw [houtcome.kept copy hplaced name hchosen (tempAt_of_isStamp hstamp), lookup_after,
          if_neg htmp] at hdir
        by_cases hname : name = call.stamp
        · rw [if_pos hname] at hdir
          obtain rfl := Entry.dir.inj (Option.some.inj hdir)
          exact .inr (.inl ⟨⟨call, ls⟩, by simp, hname.symm,
            placed_eq_copy hrun hplaced hwhole.2⟩)
        · rw [if_neg hname] at hdir
          exact (ih hwhole.1 hdir).snoc fun hsame ↦ absurd hsame.symm hname

/-- Where no error loses a file of the state directory to a call, every directory under a stamp is
complete but for those chosen to be removed; no call changes or removes anything but its temporary
directory before its copy is in place, nor anything it keeps after; and what a call has left behind
does not stop the next one. -/
theorem all_or_nothing {ps : List (Past α)} (h : Calls d₀ ps d)
    (hwhole : ∀ p ∈ ps, Whole p.call p.labels) :
    (∀ name files, isStamp name = true → d.lookup name = some (.dir files) →
      Accounted d₀ ps name files) ∧
    (∀ call ls s, Run (Step call) (.start d) ls s → Outcome call d ls s) ∧
    ∀ call : Call α, d.lookup call.stamp = none → d.lookup (tmpName call.stamp) ≠ some .file →
      ∃ ls s, Run (Step call) (.start d) ls s ∧ s.phase = .returned ∧ Whole call ls := by
  refine ⟨fun name files hstamp hdir ↦ accounted_of_calls h hwhole hstamp hdir,
    fun call ls s hrun ↦ outcome_of_run hrun, fun call habsent htmp ↦ ?_⟩
  -- a call that sees everything goes through
  let seen : Seen α := ⟨call.stateDir.store.getD [], call.stateDir.session, call.stateDir.marks⟩
  have hof : seen.Of call.stateDir := ⟨.refl _, .inr rfl, .inr rfl⟩
  obtain ⟨ls, s, hrun, hreturned, honly⟩ := exists_returned hof habsent htmp
  refine ⟨ls, s, hrun, hreturned, fun seen' hmem ↦ ?_⟩
  rw [honly seen' hmem]
  exact ⟨fun f hf _ ↦ hf, rfl, rfl⟩

end Call

/-- A store that keeps its device keys, to be copied. -/
def keys (keep : Nat) : Call String where
  stateDir := ⟨some [("matrix-sdk-crypto.sqlite3", "keys")], none, none, by decide⟩
  keep := keep
  stamp := "2026-09-06T01-00-00Z"
  isStamp := by decide

theorem ne_file {d : Backups String} {name : String} (h : d.lookup name = none) :
    d.lookup name ≠ some .file := by
  rw [h]
  nofun

/-- All of that store is seen. -/
theorem keys_seen (keep : Nat) :
    Seen.Of ⟨[("matrix-sdk-crypto.sqlite3", "keys")], none, none⟩ (keys keep).stateDir :=
  ⟨.refl _, .inl rfl, .inl rfl⟩

/-- A copy from an hour later. -/
def ahead : Backups String := Finmap.singleton "2026-09-06T02-00-00Z" (.dir fun _ ↦ none)

/-- The first of the copies that are kept is there. -/
theorem returned_keys : ∃ ls s, Run (Step (keys 7)) (.start ∅) ls s ∧
    ∃ files, placed ls = some files ∧ s.to.lookup "2026-09-06T01-00-00Z" = some (.dir files) := by
  obtain ⟨ls, s, hrun, hreturned, -⟩ := exists_returned (d := ∅) (keys_seen 7) (by decide)
    (ne_file (by decide))
  exact ⟨ls, s, hrun, (returned_iff hrun hreturned).mpr (by decide +kernel)⟩

/-- After the clock was set back, the one copy that is kept is not the new one. -/
theorem returned_without_copy : ¬∀ (call : Call String) (d₀ : Backups String) ls s,
    Run (Step call) (.start d₀) ls s → s.phase = .returned →
      ∃ files, placed ls = some files ∧ s.to.lookup call.stamp = some (.dir files) := by
  intro hall
  obtain ⟨ls, s, hrun, hreturned, -⟩ := exists_returned (d := ahead) (keys_seen 1) (by decide)
    (ne_file (by decide))
  obtain ⟨files, -, hthere⟩ := hall _ _ _ _ hrun hreturned
  obtain ⟨_, -, hgone⟩ := lookup_returned hrun hreturned
  rw [if_pos (by decide +kernel), hthere] at hgone
  nomatch hgone

/-- A copy from the day before. -/
def yesterday : Backups String := Finmap.singleton "2026-09-05T01-00-00Z" (.dir fun _ ↦ none)

/-- A call is killed before the files of its copy, and the next one, which sees all of the store,
returns: the leftover is gone, and so is the one copy that was kept. -/
theorem all_or_nothing_keys : ∃ (p q : Past String) (d₁ d : Backups String),
    Calls yesterday [p] d₁ ∧ d₁.lookup (tmpName p.call.stamp) = some (.dir fun _ ↦ none) ∧
      Calls yesterday [p, q] d ∧ d.lookup (tmpName p.call.stamp) = none ∧
        d.lookup "2026-09-05T01-00-00Z" = none ∧
          ∀ name files, isStamp name = true → d.lookup name = some (.dir files) →
            Accounted yesterday [p, q] name files := by
  let d₁ : Backups String := yesterday.insert (tmpName (keys 1).stamp) (.dir fun _ ↦ none)
  have hkilled : Run (Step (keys 1)) (.start yesterday) [.op, .op, .op, .op] ⟨d₁, .listing⟩ :=
    (((Lts.Run.single (.prepare (d := yesterday))).snoc (.absent (by decide))).snoc
      (.noLeftover (by decide))).snoc (.make (by decide))
  have hleft : d₁.lookup (tmpName (keys 1).stamp) = some (.dir fun _ ↦ none) :=
    Finmap.lookup_insert _
  obtain ⟨ls, s, hrun, hreturned, honly⟩ := exists_returned (d := d₁) (keys_seen 1) (by decide)
    (by rw [hleft]; nofun)
  obtain ⟨files, -, hlookup⟩ := (outcome_of_run hrun).returned hreturned
  have hcalls := (Calls.nil yesterday).snoc hkilled
  refine ⟨⟨keys 1, _⟩, ⟨keys 1, ls⟩, d₁, s.to, hcalls, hleft, hcalls.snoc hrun, ?_, ?_,
    (all_or_nothing (hcalls.snoc hrun) ?_).1⟩
  · rw [hlookup, lookup_after, if_pos rfl]
    exact ite_self none
  · exact (hlookup _).trans (if_pos (.inr (old_after le_rfl (by decide) (by decide) files)))
  · rw [List.nil_append, List.forall_mem_append, List.forall_mem_singleton,
      List.forall_mem_singleton]
    refine ⟨fun seen hmem ↦ absurd hmem (by simp), fun seen hmem ↦ ?_⟩
    rw [honly seen hmem]
    exact ⟨fun f hf _ ↦ hf, rfl, rfl⟩

/-- A listing that ends in an error before the store's only database makes a copy without it. -/
theorem copy_without_keys : ¬∀ (d₀ : Backups String) ps d, Calls d₀ ps d →
    ∀ name files, isStamp name = true → d.lookup name = some (.dir files) →
      Accounted d₀ ps name files := by
  intro hall
  have hof : Seen.Of ⟨[], none, none⟩ (keys 7).stateDir :=
    ⟨(List.nil_sublist _).subperm, .inl rfl, .inl rfl⟩
  obtain ⟨ls, s, hrun, hreturned, honly⟩ := exists_returned (d := ∅) hof (by decide)
    (ne_file (by decide))
  obtain ⟨files, hplaced, hthere⟩ := lookup_returned hrun hreturned
  rw [if_neg (by decide +kernel)] at hthere
  -- the copy is what was seen, and nothing was
  obtain ⟨seen, hmem, -, hfiles⟩ := (late_of_placed hrun hplaced).seen
  rw [honly seen hmem] at hfiles
  have hcalls := Calls.snoc (.nil ∅) hrun
  rcases hall _ _ _ hcalls _ files (by decide) hthere with hbefore | ⟨p, hp, -, hcopy⟩ | hremoved
  · nomatch hbefore
  · rw [List.nil_append, List.mem_singleton] at hp
    have hkeys := congrFun hcopy "matrix-sdk-crypto.sqlite3"
    have hthere : (keys 7).stateDir.copy "matrix-sdk-crypto.sqlite3" = some "keys" := by decide
    rw [hfiles, hp, hthere] at hkeys
    exact absurd hkeys (by simp [Seen.plan])
  · obtain ⟨before, p, after', heq, hchosen, -⟩ := hremoved
    have hp : p ∈ [(⟨keys 7, ls⟩ : Past String)] := by
      rw [← List.nil_append [_], heq]
      simp
    rw [List.mem_singleton] at hp
    rw [hp] at hchosen
    have hold := ((outcome_of_run hrun).old files hplaced _ hchosen).2
    rw [laterCopies_after] at hold
    exact absurd hold (by decide +kernel)

end Backup

end Silta
