import Silta.FilePaths
import Silta.Receiver

/-!
# The names of received files

What is left of a sender's name when each filter has had its turn, the path that is made of it, and
every run of a receiver: nothing outside its directory is ever written or removed.
-/

namespace Silta

namespace Transfer

/-! ## Children of a directory -/

/-- A name that stands for one entry of a directory. -/
structure Component (name : String) : Prop where
  slash : '/' ∉ name.toList
  ne_empty : name ≠ ""
  ne_dot : name ≠ "."
  ne_dotdot : name ≠ ".."

/-- Directly in the directory. -/
def ChildOf (dir path : String) : Prop := ∃ name, Component name ∧ path = join dir name

theorem parent_of_getLast {path : String} (h : path.toList.getLast?.all (· = '/') = true) :
    parent path = path := by
  unfold parent
  rw [← List.head?_reverse] at h
  cases hrev : path.toList.reverse with
  | nil =>
    rw [← String.toList_inj, List.reverse_eq_nil_iff.mp hrev]
    rfl
  | cons c cs =>
    rw [hrev] at h
    have hc : c = '/' := of_decide_eq_true h
    rw [List.dropWhile_cons_of_neg (by simp [hc]), ← hrev, List.reverse_reverse,
      String.ofList_toList]

theorem fileName_of_getLast {path : String} (h : path.toList.getLast?.all (· = '/') = true) :
    fileName path = "" := by
  unfold fileName
  rw [← List.head?_reverse] at h
  cases hrev : path.toList.reverse with
  | nil => rfl
  | cons c cs =>
    rw [hrev] at h
    have hc : c = '/' := of_decide_eq_true h
    rw [List.takeWhile_cons_of_neg (by simp [hc])]
    rfl

/-- A directory as it stands before a name: it is empty, or ends in the separator. -/
theorem getLast_join_empty (dir : String) :
    (join dir "").toList.getLast?.all (· = '/') = true := by
  unfold join
  rw [if_neg (by decide)]
  split
  · next h => rwa [String.append_empty]
  · simp

theorem parent_join {name : String} (hname : '/' ∉ name.toList) (dir : String) :
    parent (join dir name) = join dir "" := by
  have hjoin := join_append dir "" hname
  rw [String.empty_append] at hjoin
  rw [hjoin, parent_append hname, parent_of_getLast (getLast_join_empty dir)]

theorem fileName_join {name : String} (hname : '/' ∉ name.toList) (dir : String) :
    fileName (join dir name) = name := by
  have hjoin := join_append dir "" hname
  rw [String.empty_append] at hjoin
  rw [hjoin, fileName_append hname, fileName_of_getLast (getLast_join_empty dir),
    String.empty_append]

/-! ## Reduced names -/

/-- What is left of a name, before anything stands in for it. -/
def reduced (name : String) : List Char :=
  (popWhileLong ((trim (((name.toList.reverse.takeWhile fun c ↦ !isSeparator c).reverse).map
    fun c ↦ if (isControl c || isSeparator c || c = ':') = true then '_' else c)).dropWhile
      (· = '.')).reverse).reverse

theorem safeName_eq (c : Crates) (name mime : String) :
    safeName c name mime = if reduced name = [] then
      "file" ++ ((c.mimeExtension mime).map ("." ++ ·)).getD "" else String.ofList (reduced name) :=
  rfl

/-- A name that is safe on every host. -/
structure Harmless (name : String) : Prop where
  ne_empty : name ≠ ""
  separator : ∀ c ∈ name.toList, c ≠ '/' ∧ c ≠ '\\' ∧ c ≠ ':' ∧ isControl c = false
  hidden : name.toList.head? ≠ some '.'
  size : name.utf8ByteSize ≤ 100

theorem utf8ByteSize_eq_sum (cs : List Char) :
    (String.ofList cs).utf8ByteSize = (cs.map Char.utf8Size).sum := by
  induction cs with
  | nil => rfl
  | cons c cs ih =>
    have hcons : String.ofList (c :: cs) = String.singleton c ++ String.ofList cs := by
      rw [String.singleton_eq_ofList, ← String.ofList_append]
      rfl
    rw [hcons, String.utf8ByteSize_append, String.utf8ByteSize_singleton, ih, List.map_cons,
      List.sum_cons]

theorem size_popWhileLong (cs : List Char) :
    ((popWhileLong cs).map Char.utf8Size).sum ≤ nameMax := by
  induction cs with
  | nil => exact Nat.zero_le _
  | cons c cs ih =>
    rw [popWhileLong]
    split
    · exact ih
    · omega

/-- Cutting the end of a name off leaves its beginning. -/
theorem popWhileLong_suffix (cs : List Char) : popWhileLong cs <:+ cs := by
  induction cs with
  | nil => exact List.suffix_refl _
  | cons c cs ih =>
    rw [popWhileLong]
    split
    · exact ih.trans (List.suffix_cons c cs)
    · exact List.suffix_refl _

theorem size_reduced (name : String) : ((reduced name).map Char.utf8Size).sum ≤ 100 := by
  unfold reduced
  rw [List.map_reverse, List.sum_reverse]
  exact size_popWhileLong _

/-- The last filters only drop characters, so each that is left was let through by the first. -/
theorem mem_reduced {name : String} {c : Char} (h : c ∈ reduced name) :
    c ≠ '/' ∧ c ≠ '\\' ∧ c ≠ ':' ∧ isControl c = false := by
  have h := mem_of_mem_popWhileLong (List.mem_reverse.mp h)
  have h := mem_of_mem_trim ((List.dropWhile_sublist _).mem (List.mem_reverse.mp h))
  obtain ⟨d, -, hd⟩ := List.mem_map.mp h
  split at hd
  · -- what stands in for a character is harmless
    rw [← hd]
    decide
  · next hplain =>
    rw [hd] at hplain
    simp only [isSeparator, Bool.or_eq_true, decide_eq_true_eq, not_or] at hplain
    exact ⟨hplain.1.2.1, hplain.1.2.2, hplain.2, Bool.eq_false_of_not_eq_true hplain.1.1⟩

theorem head_dropWhile_dot (cs : List Char) : (cs.dropWhile (· = '.')).head? ≠ some '.' := by
  intro h
  have hnot := List.head?_dropWhile_not (p := (· = '.')) cs
  rw [h] at hnot
  exact absurd hnot (by decide)

/-- Cutting the end off does not bring a dot to the front. -/
theorem head_reduced (name : String) : (reduced name).head? ≠ some '.' := by
  intro h
  obtain ⟨cut, hcut⟩ := List.reverse_prefix.mpr (popWhileLong_suffix
    ((trim (((name.toList.reverse.takeWhile fun c ↦ !isSeparator c).reverse).map
      fun c ↦ if (isControl c || isSeparator c || c = ':') = true then '_' else c)).dropWhile
        (· = '.')).reverse)
  rw [List.reverse_reverse] at hcut
  apply head_dropWhile_dot
  rw [← hcut, List.head?_append]
  show (((reduced name).head?).or _) = some '.'
  rw [h]
  rfl

theorem harmless_reduced {name : String} (h : reduced name ≠ []) :
    Harmless (String.ofList (reduced name)) where
  ne_empty heq := by
    rw [String.ofList_eq_empty_iff] at heq
    exact h heq
  separator c hc := by
    rw [String.toList_ofList] at hc
    exact mem_reduced hc
  hidden := by
    rw [String.toList_ofList]
    exact head_reduced name
  size := by
    rw [utf8ByteSize_eq_sum]
    exact size_reduced name

theorem harmless_file : Harmless "file" where
  ne_empty := by decide
  separator c hc := by
    have hall : ("file".toList.all fun c ↦
        decide (c ≠ '/' ∧ c ≠ '\\' ∧ c ≠ ':' ∧ isControl c = false)) = true := by decide
    exact of_decide_eq_true (List.all_eq_true.mp hall c hc)
  hidden := by decide
  size := by decide

theorem harmless_safeName (c : Crates) (name mime : String) :
    Harmless (safeName c name mime) ∨
      ∃ ext, c.mimeExtension mime = some ext ∧ safeName c name mime = "file" ++ "." ++ ext := by
  rw [safeName_eq]
  split
  · cases hmime : c.mimeExtension mime with
    | none =>
      left
      exact harmless_file
    | some ext =>
      right
      exact ⟨ext, rfl, by rw [String.append_assoc]; rfl⟩
  · next h => exact .inl (harmless_reduced h)

/-! ## The path of a transfer -/

variable {c : Crates}

/-- The dash keeps a name from being `.` or `..`, whatever the three texts are. -/
theorem component_pathName (hext : PlainExtensions c) (header : FileHeader) {before : String}
    (hbefore : '/' ∉ before.toList) :
    Component (before ++ safeId header.transfer ++ "-" ++
      safeName c header.name header.mime) := by
  have hne : ∀ name : String, '-' ∉ name.toList → before ++ safeId header.transfer ++ "-" ++
      safeName c header.name header.mime ≠ name := by
    intro name hname h
    rw [← h] at hname
    exact hname (by simp)
  have hslash : '/' ∉ "-".toList := by decide
  constructor
  case slash =>
    simp only [String.toList_append, List.mem_append, slash_notMem_safeId,
      slash_notMem_safeName hext, hslash, hbefore, or_self, not_false_iff]
  case ne_empty => exact hne "" (by decide)
  case ne_dot => exact hne "." (by decide)
  case ne_dotdot => exact hne ".." (by decide)

theorem childOf_pathFor (hext : PlainExtensions c) {r : Receiver}
    (hbefore : '/' ∉ r.namePrefix.toList) (header : FileHeader) :
    ChildOf r.dir (r.pathFor c header) :=
  ⟨_, component_pathName hext header hbefore, rfl⟩

/-! ## Every run of a receiver -/

/-- Each open transfer is in the directory, and outside it the files are as they were. -/
structure Confined (r : Receiver) (files : String → Option Bytes) (s : Spool) : Prop where
  dir : s.receiver.dir = r.dir
  namePrefix : s.receiver.namePrefix = r.namePrefix
  opened : ∀ transfer o, s.receiver.openTransfers transfer = some o → ChildOf r.dir o.path
  outside : ∀ path, ¬ChildOf r.dir path → s.files path = files path

namespace Confined

variable {r : Receiver} {files : String → Option Bytes} {s : Spool}

theorem put (h : Confined r files s) (transfer : String) {o : Open} (ho : ChildOf r.dir o.path)
    (bytes : Option Bytes) : Confined r files (s.put transfer o bytes) where
  dir := h.dir
  namePrefix := h.namePrefix
  opened other o' ho' := by
    rw [Spool.openTransfers_put] at ho'
    by_cases heq : other = transfer
    · rw [heq, Function.update_self, Option.some.injEq] at ho'
      rw [← ho']
      exact ho
    · rw [Function.update_of_ne heq] at ho'
      exact h.opened other o' ho'
  outside path hpath := by
    have hne : path ≠ o.path := fun heq ↦ hpath (heq ▸ ho)
    rw [Spool.files_put, Function.update_of_ne hne]
    exact h.outside path hpath

theorem close (h : Confined r files s) (transfer : String) :
    Confined r files (s.close transfer) where
  dir := h.dir
  namePrefix := h.namePrefix
  opened other o ho := by
    rw [Spool.openTransfers_close] at ho
    by_cases heq : other = transfer
    · rw [heq, Function.update_self] at ho
      cases ho
    · rw [Function.update_of_ne heq] at ho
      exact h.opened other o ho
  outside := h.outside

theorem removeFile (h : Confined r files s) {path : String} (hpath : ChildOf r.dir path) :
    Confined r files (s.removeFile path) where
  dir := h.dir
  namePrefix := h.namePrefix
  opened := h.opened
  outside other hother := by
    have hne : other ≠ path := fun heq ↦ hother (heq ▸ hpath)
    rw [Spool.files_removeFile, Function.update_of_ne hne]
    exact h.outside other hother

theorem discard (h : Confined r files s) (transfer : String) :
    Confined r files (s.discard transfer) := by
  cases ho : s.receiver.openTransfers transfer with
  | none =>
    rw [s.discard_of_none ho]
    exact h
  | some o =>
    rw [s.discard_eq ho]
    exact (h.close transfer).removeFile (h.opened transfer o ho)

theorem abortAll (h : Confined r files s) (transfers : List String) :
    Confined r files (s.abortAll transfers) := by
  unfold Spool.abortAll
  induction transfers generalizing s with
  | nil => exact h
  | cons transfer transfers ih => exact ih (h.discard transfer)

theorem begin (h : Confined r files s) (hext : PlainExtensions c)
    (hbefore : '/' ∉ r.namePrefix.toList) (header : FileHeader) (fault : Option String) :
    Confined r files (s.begin c header fault).2 := by
  rcases s.begin_cases c header fault with ⟨err, heq, -⟩ | ⟨-, heq⟩
  · rw [heq]
    exact h
  · rw [heq]
    apply h.put
    rw [← h.dir]
    apply childOf_pathFor hext
    rw [h.namePrefix]
    exact hbefore

theorem chunk (h : Confined r files s) (data : FileChunk) (fault : Option String) :
    Confined r files (s.chunk c data fault).2 := by
  rcases s.chunk_cases c data fault with ⟨err, heq, -⟩ | ⟨o, ho, hopen⟩
  · rw [heq]
    exact h
  · rcases hopen with ⟨err, heq, -⟩ | ⟨bytes, -, -, heq⟩
    · rw [heq]
      exact h.discard data.transfer
    · -- the transfer grows at the path it began at
      rw [heq]
      apply h.put data.transfer
      exact h.opened data.transfer o ho

theorem «end» (h : Confined r files s) (last : FileEnd) (fault : Option String) :
    Confined r files (s.end last fault).2 := by
  rcases s.end_cases last fault with ⟨-, heq⟩ | ⟨o, ho, hopen⟩
  · rw [heq]
    exact h
  · have hpath := h.opened last.transfer o ho
    rcases hopen with ⟨-, err, heq, -⟩ | ⟨-, -, heq⟩
    · rw [heq]
      exact (h.close last.transfer).removeFile hpath
    · rw [heq]
      exact h.close last.transfer

theorem call (h : Confined r files s) (hext : PlainExtensions c)
    (hbefore : '/' ∉ r.namePrefix.toList) (call : Call) :
    Confined r files (s.call c call).2 := by
  cases call with
  | begin header fault => exact h.begin hext hbefore header fault
  | chunk data fault => exact h.chunk data fault
  | «end» last fault => exact h.end last fault
  | abortAll transfers => exact h.abortAll transfers

end Confined

/-- Whatever the sender says, nothing outside the directory is written or removed. -/
theorem confined_run (hext : PlainExtensions c) {r : Receiver}
    (hbefore : '/' ∉ r.namePrefix.toList) {files : String → Option Bytes} {calls : List Call}
    {s : Kept} (hrun : Lts.Run (Kept.Step c) (.start r files) calls s) :
    Confined r files s.spool := by
  apply hrun.invariant (I := fun s ↦ Confined r files s.spool) (P := fun _ ↦ True)
  · intro s call t h _ hstep
    rw [hstep.2]
    exact h.call hext hbefore call
  · exact ⟨rfl, rfl, nofun, fun _ _ ↦ rfl⟩
  · exact fun _ _ ↦ trivial

/-- A sender chooses neither where a file lands nor a name that means anything to its host. -/
theorem lands_in_dir (hext : PlainExtensions c) :
    (∀ (r : Receiver) (header : FileHeader), '/' ∉ r.namePrefix.toList →
      ChildOf r.dir (r.pathFor c header) ∧
        parent (r.pathFor c header) = join r.dir "" ∧
        Component (fileName (r.pathFor c header))) ∧
    ∀ name mime, Harmless (safeName c name mime) ∨
      ∃ ext, c.mimeExtension mime = some ext ∧ safeName c name mime = "file" ++ "." ++ ext := by
  constructor
  · intro r header hbefore
    have hname := component_pathName hext header hbefore
    refine ⟨⟨_, hname, rfl⟩, ?_, ?_⟩
    · exact parent_join hname.slash r.dir
    · rw [Receiver.pathFor, fileName_join hname.slash]
      exact hname
  · exact harmless_safeName c

/-- A table of mime types that knows one. -/
def pngCrates : Crates :=
  { base64Crates with mimeExtension := fun mime ↦ if mime = "image/png" then some "png" else none }

theorem lands_in_dir_outside :
    let r := Receiver.new "/outbox" "s1-" 10
    ChildOf r.dir (r.pathFor pngCrates ⟨"../t1", "../../etc/..", "image/png", 3⟩) ∧
      r.pathFor pngCrates ⟨"../t1", "../../etc/..", "image/png", 3⟩ =
        "/outbox/s1-___t1-file.png" := by
  have hext : PlainExtensions pngCrates := by
    intro mime ext h
    rw [pngCrates] at h
    dsimp only at h
    split at h
    · cases h
      decide
    · cases h
  exact ⟨((lands_in_dir hext).1 _ _ (by decide)).1, by decide +kernel⟩

end Transfer

end Silta
