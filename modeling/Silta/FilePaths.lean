import Silta.RoomAccess
import Silta.Transfer

/-!
# Where transfers land

The paths of two transfers: on one connection, in the outbox that the sessions share, and in the
spool of the daemon.  A name is put together from reduced texts that may all hold the separator, so
two transfers can share a file; here is exactly when they do.
-/

namespace Silta

namespace Transfer

/-! ## Paths -/

/-- A path up to its last separator. -/
def parent (path : String) : String :=
  String.ofList (path.toList.reverse.dropWhile (· ≠ '/')).reverse

def fileName (path : String) : String :=
  String.ofList (path.toList.reverse.takeWhile (· ≠ '/')).reverse

/-- The file of a path: its name, in the directory that the rest of the path leads to. -/
def place {D : Type} (resolve : String → D) (path : String) : D × String :=
  (resolve (parent path), fileName path)

theorem parent_append {path name : String} (hname : '/' ∉ name.toList) :
    parent (path ++ name) = parent path := by
  have hall : ∀ c ∈ name.toList.reverse, decide (c ≠ '/') = true := fun c hc ↦
    decide_eq_true fun heq ↦ hname (heq ▸ List.mem_reverse.mp hc)
  unfold parent
  rw [String.toList_append, List.reverse_append, List.dropWhile_append_of_pos hall]

theorem fileName_append {path name : String} (hname : '/' ∉ name.toList) :
    fileName (path ++ name) = fileName path ++ name := by
  have hall : ∀ c ∈ name.toList.reverse, decide (c ≠ '/') = true := fun c hc ↦
    decide_eq_true fun heq ↦ hname (heq ▸ List.mem_reverse.mp hc)
  unfold fileName
  rw [String.toList_append, List.reverse_append, List.takeWhile_append_of_pos hall,
    List.reverse_append, List.reverse_reverse, String.ofList_append, String.ofList_toList]

/-- What is joined may grow by a plain name. -/
theorem join_append (dir first : String) {name : String} (hname : '/' ∉ name.toList) :
    join dir (first ++ name) = join dir first ++ name := by
  have hhead : (first ++ name).toList.head? = some '/' ↔ first.toList.head? = some '/' := by
    rw [String.toList_append]
    cases first.toList with
    | nil =>
      refine ⟨fun h ↦ absurd (List.mem_of_mem_head? h) hname, fun h ↦ ?_⟩
      cases h
    | cons c cs => rfl
  unfold join
  split
  · next h => rw [if_pos (hhead.mp h)]
  · next h =>
    rw [if_neg (mt hhead.mpr h)]
    split <;> simp only [String.append_assoc]

theorem place_join_append {D : Type} (resolve : String → D) (dir first : String) {name : String}
    (hname : '/' ∉ name.toList) :
    place resolve (join dir (first ++ name)) =
      (resolve (parent (join dir first)), fileName (join dir first) ++ name) := by
  rw [place, join_append dir first hname, parent_append hname, fileName_append hname]

/-! ## Reduced ids -/

/-- Kept as it is by the reduction of an id. -/
def plain (c : Char) : Bool := c.isAlphanum || c = '-'

/-- Two ids that differ in leading `$`s and in characters that become `_`. -/
def Alike (id id' : String) : Prop :=
  List.Forall₂ (fun c d ↦ c = d ∨ plain c = false ∧ plain d = false)
    (id.toList.dropWhile (· = '$')) (id'.toList.dropWhile (· = '$'))

def safeChar (c : Char) : Char := if (c.isAlphanum || c = '-' || c = '_') = true then c else '_'

theorem toList_safeId (id : String) :
    (safeId id).toList = (id.toList.dropWhile (· = '$')).map safeChar :=
  String.toList_ofList

theorem safeChar_of_plain {c : Char} (h : plain c = true) : safeChar c = c := by
  unfold safeChar
  unfold plain at h
  rw [if_pos (by simp only [h, Bool.true_or])]

theorem safeChar_of_not_plain {c : Char} (h : plain c = false) : safeChar c = '_' := by
  unfold safeChar
  unfold plain at h
  rw [h, Bool.false_or]
  split
  · next hc => exact of_decide_eq_true hc
  · rfl

theorem safeChar_eq_iff (c d : Char) :
    safeChar c = safeChar d ↔ c = d ∨ plain c = false ∧ plain d = false := by
  have hunderscore : plain '_' = false := by decide
  cases hc : plain c with
  | true =>
    rw [safeChar_of_plain hc]
    cases hd : plain d with
    | true => simp [safeChar_of_plain hd]
    | false =>
      rw [safeChar_of_not_plain hd]
      -- a character that is kept is no `_`
      refine ⟨fun h ↦ ?_, fun h ↦ ?_⟩
      · rw [h, hunderscore] at hc
        cases hc
      · rcases h with rfl | ⟨h, -⟩
        · rw [hc] at hd
          cases hd
        · cases h
  | false =>
    rw [safeChar_of_not_plain hc]
    cases hd : plain d with
    | true =>
      rw [safeChar_of_plain hd]
      refine ⟨fun h ↦ ?_, fun h ↦ ?_⟩
      · rw [← h, hunderscore] at hd
        cases hd
      · rcases h with rfl | ⟨-, h⟩
        · rw [hd] at hc
          cases hc
        · cases h
    | false => simp [safeChar_of_not_plain hd]

theorem safeId_eq_iff (id id' : String) : safeId id = safeId id' ↔ Alike id id' := by
  rw [← String.toList_inj, toList_safeId, toList_safeId, ← List.forall₂_eq_eq_eq,
    List.forall₂_map_left_iff, List.forall₂_map_right_iff]
  simp only [safeChar_eq_iff]
  rfl

theorem slash_notMem_safeId (id : String) : '/' ∉ (safeId id).toList := by
  rw [toList_safeId]
  intro h
  obtain ⟨c, -, hc⟩ := List.mem_map.mp h
  have hslash : plain '/' = false := by decide
  cases hplain : plain c with
  | true =>
    rw [safeChar_of_plain hplain] at hc
    rw [hc, hslash] at hplain
    cases hplain
  | false =>
    rw [safeChar_of_not_plain hplain] at hc
    exact absurd hc (by decide)

theorem mem_of_mem_popWhileLong {c : Char} {cs : List Char} (h : c ∈ popWhileLong cs) : c ∈ cs := by
  induction cs with
  | nil => exact h
  | cons d cs ih =>
    rw [popWhileLong] at h
    split at h
    · exact List.mem_cons_of_mem d (ih h)
    · exact h

theorem mem_of_mem_trim {c : Char} {cs : List Char} (h : c ∈ trim cs) : c ∈ cs := by
  have h := (List.dropWhile_sublist _).mem (List.mem_reverse.mp h)
  exact (List.dropWhile_sublist _).mem (List.mem_reverse.mp h)

variable {c : Crates}

/-- An extension of the table of mime types is no path. -/
def PlainExtensions (c : Crates) : Prop :=
  ∀ mime ext, c.mimeExtension mime = some ext → '/' ∉ ext.toList

theorem slash_notMem_safeName (hext : PlainExtensions c) (name mime : String) :
    '/' ∉ (safeName c name mime).toList := by
  unfold safeName
  dsimp only
  split
  · -- only the extension could hold one
    have hfile : '/' ∉ "file".toList := by decide
    have hdot : '/' ∉ ".".toList := by decide
    cases hmime : c.mimeExtension mime with
    | none => simp
    | some ext =>
      have hnone := hext mime ext hmime
      simp only [Option.map_some, Option.getD_some, String.toList_append, List.mem_append, hfile,
        hdot, hnone, or_self, not_false_iff]
  · rw [String.toList_ofList]
    intro h
    have h := mem_of_mem_popWhileLong (List.mem_reverse.mp h)
    have h := mem_of_mem_trim ((List.dropWhile_sublist _).mem (List.mem_reverse.mp h))
    obtain ⟨d, -, hd⟩ := List.mem_map.mp h
    split at hd
    · cases hd
    · next hplain =>
      rw [hd] at hplain
      exact hplain (by decide)

/-! ## Clashes -/

/-- One text goes on with the separator and `rest`, with which the name beside the other begins. -/
def Continues (stem name stem' name' : String) : Prop :=
  ∃ rest, stem' = stem ++ "-" ++ rest ∧ name = rest ++ "-" ++ name'

/-- Two texts that give the same with their names. -/
def Clash (stem name stem' name' : String) : Prop :=
  stem = stem' ∧ name = name' ∨ Continues stem name stem' name' ∨ Continues stem' name' stem name

theorem append_separator_eq_iff (sep : Char) (xs ys xs' ys' : List Char) :
    xs ++ sep :: ys = xs' ++ sep :: ys' ↔
      xs = xs' ∧ ys = ys' ∨ (∃ zs, xs' = xs ++ sep :: zs ∧ ys = zs ++ sep :: ys') ∨
        ∃ zs, xs = xs' ++ sep :: zs ∧ ys' = zs ++ sep :: ys := by
  constructor
  · intro h
    -- by where the first separator falls into the other text
    rcases List.append_eq_append_iff.mp h with ⟨zs, hxs, hys⟩ | ⟨zs, hxs, hys⟩
    · cases zs with
      | nil => exact .inl ⟨by simpa using hxs.symm, (List.cons.inj hys).2⟩
      | cons z zs =>
        obtain rfl := (List.cons.inj hys).1
        exact .inr (.inl ⟨zs, hxs, (List.cons.inj hys).2⟩)
    · cases zs with
      | nil => exact .inl ⟨by simpa using hxs, (List.cons.inj hys).2.symm⟩
      | cons z zs =>
        obtain rfl := (List.cons.inj hys).1
        exact .inr (.inr ⟨zs, hxs, (List.cons.inj hys).2⟩)
  · rintro (⟨rfl, rfl⟩ | ⟨zs, rfl, rfl⟩ | ⟨zs, rfl, rfl⟩)
    · rfl
    · simp
    · simp

theorem continues_iff (stem name stem' name' : String) :
    Continues stem name stem' name' ↔
      ∃ zs, stem'.toList = stem.toList ++ '-' :: zs ∧ name.toList = zs ++ '-' :: name'.toList := by
  constructor
  · rintro ⟨rest, rfl, rfl⟩
    exact ⟨rest.toList, by simp, by simp⟩
  · rintro ⟨zs, hstem, hname⟩
    refine ⟨String.ofList zs, ?_, ?_⟩
    · rw [← String.toList_inj]
      simpa using hstem
    · rw [← String.toList_inj]
      simpa using hname

theorem append_eq_iff_clash (stem name stem' name' : String) :
    stem ++ "-" ++ name = stem' ++ "-" ++ name' ↔ Clash stem name stem' name' := by
  have hlist : ∀ s n : String, (s ++ "-" ++ n).toList = s.toList ++ '-' :: n.toList := by
    intro s n
    simp
  rw [Clash, continues_iff, continues_iff, ← String.toList_inj, hlist, hlist,
    append_separator_eq_iff, String.toList_inj, String.toList_inj]

/-- What precedes both texts makes no difference. -/
theorem clash_append_left (first stem name stem' name' : String) :
    Clash (first ++ stem) name (first ++ stem') name' ↔ Clash stem name stem' name' := by
  simp only [← append_eq_iff_clash, String.append_assoc, String.append_right_inj]

/-! ## The paths of the daemon -/

namespace Receiver

/-- The directory that a receiver writes to. -/
def folder (r : Receiver) : String := parent (join r.dir r.namePrefix)

/-- What the names of its files begin with. -/
def stem (r : Receiver) : String := fileName (join r.dir r.namePrefix)

end Receiver

/-- The receiver of the files that a session sends. -/
def outboxReceiver (outbox session : String) (maxBytes : Nat) : Receiver :=
  .new outbox (session ++ "-") maxBytes

/-- The transfer of the attachment of a message. -/
def attachmentTransfer (eventId : String) : String := safeId eventId ++ "-1"

def inboxPath (inbox transfer : String) : String := join inbox transfer

theorem place_pathFor {D : Type} (resolve : String → D) (hext : PlainExtensions c) (r : Receiver)
    (header : FileHeader) :
    place resolve (r.pathFor c header) =
      (resolve r.folder,
        r.stem ++ safeId header.transfer ++ "-" ++ safeName c header.name header.mime) := by
  have hname : '/' ∉ (safeId header.transfer ++ "-" ++
      safeName c header.name header.mime).toList := by
    have hdash : '/' ∉ "-".toList := by decide
    simp only [String.toList_append, List.mem_append, slash_notMem_safeId,
      slash_notMem_safeName hext, hdash, or_self, not_false_iff]
  have hpath := place_join_append resolve r.dir r.namePrefix hname
  simp only [← String.append_assoc] at hpath
  exact hpath

/-- Two transfers of whatever receivers share a file if they share the directory, and one of their
ids goes on into the name of the other. -/
theorem place_pathFor_eq_iff {D : Type} (resolve : String → D) (hext : PlainExtensions c)
    (r r' : Receiver) (h h' : FileHeader) :
    place resolve (r.pathFor c h) = place resolve (r'.pathFor c h') ↔
      resolve r.folder = resolve r'.folder ∧
        Clash (r.stem ++ safeId h.transfer) (safeName c h.name h.mime)
          (r'.stem ++ safeId h'.transfer) (safeName c h'.name h'.mime) := by
  rw [place_pathFor resolve hext, place_pathFor resolve hext, Prod.mk.injEq, append_eq_iff_clash]

theorem place_inboxPath {D : Type} (resolve : String → D) (inbox eventId : String) :
    place resolve (inboxPath inbox (attachmentTransfer eventId)) =
      (resolve (parent (join inbox "")),
        fileName (join inbox "") ++ attachmentTransfer eventId) := by
  have hname : '/' ∉ (attachmentTransfer eventId).toList := by
    have hone : '/' ∉ "-1".toList := by decide
    simp only [attachmentTransfer, String.toList_append, List.mem_append, slash_notMem_safeId, hone,
      or_self, not_false_iff]
  have hpath := place_join_append resolve inbox "" hname
  rw [String.empty_append] at hpath
  exact hpath

theorem place_inboxPath_eq_iff {D : Type} (resolve : String → D) (inbox eventId eventId' : String) :
    place resolve (inboxPath inbox (attachmentTransfer eventId)) =
      place resolve (inboxPath inbox (attachmentTransfer eventId')) ↔ Alike eventId eventId' := by
  rw [place_inboxPath, place_inboxPath, Prod.mk.injEq, ← safeId_eq_iff, attachmentTransfer,
    attachmentTransfer, String.append_right_inj, String.append_left_inj]
  exact and_iff_right rfl

/-- When two transfers keep apart: on one connection, in the outbox that the sessions share, and in
the spool of the daemon. -/
theorem apart_iff {D : Type} (resolve : String → D) (hext : PlainExtensions c) :
    (∀ (r : Receiver) (h h' : FileHeader),
      place resolve (r.pathFor c h) ≠ place resolve (r.pathFor c h') ↔
        ¬Clash (safeId h.transfer) (safeName c h.name h.mime)
          (safeId h'.transfer) (safeName c h'.name h'.mime)) ∧
    (∀ (outbox session session' : String) (maxBytes : Nat) (h h' : FileHeader),
      let r := outboxReceiver outbox session maxBytes
      let r' := outboxReceiver outbox session' maxBytes
      place resolve (r.pathFor c h) ≠ place resolve (r'.pathFor c h') ↔
        ¬(resolve r.folder = resolve r'.folder ∧
          Clash (r.stem ++ safeId h.transfer) (safeName c h.name h.mime)
            (r'.stem ++ safeId h'.transfer) (safeName c h'.name h'.mime))) ∧
    ∀ inbox eventId eventId' : String,
      place resolve (inboxPath inbox (attachmentTransfer eventId)) ≠
          place resolve (inboxPath inbox (attachmentTransfer eventId')) ↔
        ¬Alike eventId eventId' := by
  refine ⟨fun r h h' ↦ not_congr ?_, fun outbox session session' maxBytes h h' ↦ not_congr ?_,
    fun inbox eventId eventId' ↦ not_congr ?_⟩
  · rw [place_pathFor_eq_iff resolve hext, clash_append_left]
    exact and_iff_right rfl
  · exact place_pathFor_eq_iff resolve hext _ _ h h'
  · exact place_inboxPath_eq_iff resolve inbox eventId eventId'

/-- A configuration with two sessions of which one begins with the name of the other. -/
def twins : Config :=
  { Routing.minds with sessions := [
      { name := "a", receive := .groups, send := .own, user := "a" },
      { name := "a-t1", receive := .all, send := .own, user := "b" }] }

theorem path_shared :
    (∃ h h' : FileHeader, h.transfer ≠ h'.transfer ∧
      (Receiver.new "/inbox" "" 10).pathFor base64Crates h =
        (Receiver.new "/inbox" "" 10).pathFor base64Crates h') ∧
    (twins.validate = .ok () ∧ ∃ s ∈ twins.sessions, ∃ s' ∈ twins.sessions, s.name ≠ s'.name ∧
      ∃ h h' : FileHeader, h.transfer ≠ h'.transfer ∧
        (outboxReceiver "/outbox" s.name 10).pathFor base64Crates h =
          (outboxReceiver "/outbox" s'.name 10).pathFor base64Crates h') ∧
    ∃ eventId eventId' : String, eventId ≠ eventId' ∧
      inboxPath "/inbox" (attachmentTransfer eventId) =
        inboxPath "/inbox" (attachmentTransfer eventId') := by
  refine ⟨⟨⟨"a:b-1", "n", "text/plain", 1⟩, ⟨"a_b-1", "n", "text/plain", 1⟩, by decide,
    by decide +kernel⟩, ⟨by decide +kernel, ?_⟩, "$a/b", "$a+b", by decide, by decide +kernel⟩
  exact ⟨_, .head _, _, .tail _ (.head _), by decide, ⟨"t1", "t2-n", "text/plain", 1⟩,
    ⟨"t2", "n", "text/plain", 1⟩, by decide, by decide +kernel⟩

theorem apart_iff_base64 :
    (Receiver.new "/inbox" "" 10).pathFor base64Crates ⟨"t1", "n", "text/plain", 1⟩ ≠
      (Receiver.new "/inbox" "" 10).pathFor base64Crates ⟨"t2", "n", "text/plain", 1⟩ := by
  have hext : PlainExtensions base64Crates := fun _ _ ↦ nofun
  have hclash : ¬Clash (safeId "t1") (safeName base64Crates "n" "text/plain")
      (safeId "t2") (safeName base64Crates "n" "text/plain") := by
    rw [← append_eq_iff_clash]
    decide +kernel
  have hplace := ((apart_iff id hext).1 (.new "/inbox" "" 10) ⟨"t1", "n", "text/plain", 1⟩
    ⟨"t2", "n", "text/plain", 1⟩).mpr hclash
  exact fun h ↦ hplace (congrArg (place id) h)

end Transfer

end Silta
