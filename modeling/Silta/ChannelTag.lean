import Silta.Inbox
import Silta.Wire

/-!
# What Claude Code is shown

The notification for an event: the attributes of its `<channel>` tag and its body.  An attachment is
four numbered attributes, and one whose transfer did not arrive has no path and is named in the
body.
-/

namespace Silta

namespace ChannelTag

/-- What the attributes say of an attachment. -/
inductive Detail
  | name
  | mime
  | size
  | path
  deriving DecidableEq, Repr

namespace Detail

def asStr : Detail → String
  | name => "name"
  | mime => "mime"
  | size => "size"
  | path => "path"

def value (a : Attachment) (path? : Option String) : Detail → Option String
  | name => some a.name
  | mime => some a.mime
  | size => some (toString a.size)
  | path => path?

def all : List Detail := [name, mime, size, path]

/-- The attribute of the `n`th attachment. -/
def key (n : Nat) (detail : Detail) : String := "attachment_" ++ toString n ++ "_" ++ detail.asStr

end Detail

/-- The attributes of an attachment, in the order in which they are inserted. -/
def attributes (n : Nat) (a : Attachment) (path? : Option String) : List (String × Json) :=
  Detail.all.filterMap fun detail ↦ (detail.value a path?).map fun text ↦ (detail.key n, .str text)

/-- The attributes of the attachments from the `i`th on. -/
def attachmentsFrom (paths : List (Option String)) (i : Nat) :
    List Attachment → List (String × Json)
  | [] => []
  | a :: attachments =>
    attributes (i + 1) a (paths[i]?).join ++ attachmentsFrom paths (i + 1) attachments

/-- The lines for the attachments without a path. -/
def missingFrom (paths : List (Option String)) (i : Nat) : List Attachment → List String
  | [] => []
  | a :: attachments =>
    let rest := missingFrom paths (i + 1) attachments
    match (paths[i]?).join with
    | some _ => rest
    | none =>
      ("[attachment \"" ++ a.name ++ "\" was not received; ask for it again]") :: rest

/-- The attributes that do not depend on the attachments.  The address of the sender is none. -/
def headFields (event : Event) : List (String × Option String) := [
  ("kind", if event.kind = .message then none else some event.kind.asStr),
  ("person", some event.person), ("role", some event.role.asStr),
  ("room_id", some event.roomId), ("room", some event.room.asStr),
  ("event_id", some event.eventId), ("ts", some event.ts),
  ("in_reply_to", event.inReplyTo), ("thread", event.thread), ("reacts_to", event.reactsTo)]

def head (event : Event) : List (String × Json) :=
  (headFields event).filterMap fun p ↦ p.2.map fun text ↦ (p.1, .str text)

/-- What is inserted into the attributes. -/
def metaEntries (inbound : Inbox.Inbound) : List (String × Json) :=
  head inbound.event ++ attachmentsFrom inbound.paths 0 inbound.event.attachments

/-- The text, or the names of the files that come without one. -/
def body (event : Event) : String :=
  if event.text = "" ∧ event.attachments ≠ [] then
    "\n".intercalate (event.attachments.map fun a ↦ "[attachment: " ++ a.name ++ "]")
  else event.text

def pushLine (content line : String) : String :=
  (if content = "" then content else content ++ "\n") ++ line

def content (inbound : Inbox.Inbound) : String :=
  (missingFrom inbound.paths 0 inbound.event.attachments).foldl pushLine (body inbound.event)

def channelParams (inbound : Inbox.Inbound) : Json :=
  .obj [("content", .str (content inbound)), ("meta", .obj (Json.ofEntries (metaEntries inbound)))]

/-! ## The attributes -/

section Keys

variable {n m : Nat} {detail other : Detail}

theorem repr_inj (h : n.repr = m.repr) : n = m := by
  have hvalue := congrArg (fun text ↦ Nat.ofDigitChars 10 text.toList 0) h
  simpa only [Nat.toList_repr, Nat.ofDigitChars_ten_toDigits] using hvalue

theorem Detail.asStr_inj : detail.asStr = other.asStr ↔ detail = other := by
  constructor
  · intro h
    cases detail <;> cases other <;> first | rfl | exact absurd h (by decide)
  · rintro rfl
    rfl

/-- The number ends at the next underscore. -/
theorem Detail.key_inj : detail.key n = other.key m ↔ n = m ∧ detail = other := by
  have hdigits (k : Nat) : '_' ∉ Nat.toDigits 10 k := by
    intro hmem
    have hdigit := Nat.isDigit_of_mem_toDigits (by decide) (by decide) hmem
    exact absurd hdigit (by decide)
  have hlist (k : Nat) (detail : Detail) : (detail.key k).toList =
      "attachment_".toList ++ (Nat.toDigits 10 k ++ '_' :: detail.asStr.toList) := by
    simp only [key, String.toList_append, toString, Nat.toList_repr, List.append_assoc]
    rfl
  have hplain : '_' ∉ detail.asStr.toList := by
    cases detail <;> decide
  rw [← String.toList_inj, hlist, hlist, List.append_cancel_left_eq,
    List.append_cons_inj_of_notMem (hdigits n) hplain, String.toList_inj, asStr_inj]
  constructor
  · rintro ⟨hnm, -, hdetail⟩
    refine ⟨?_, hdetail⟩
    have hvalue := congrArg (fun ds ↦ Nat.ofDigitChars 10 ds 0) hnm
    simpa only [Nat.ofDigitChars_ten_toDigits] using hvalue
  · rintro ⟨rfl, rfl⟩
    exact ⟨rfl, rfl, rfl⟩

theorem Detail.key_ne_head (event : Event) : detail.key n ∉ (headFields event).map Prod.fst := by
  intro hmem
  have hfirst : (detail.key n).toList.head? = some 'a' := by
    simp only [key, String.append_assoc, String.toList_append]
    rfl
  have hnone : ∀ name ∈ (headFields event).map Prod.fst, name.toList.head? ≠ some 'a' := by
    simp only [headFields, List.map_cons, List.map_nil]
    decide
  exact hnone _ hmem hfirst

end Keys

theorem lookup_details (n m : Nat) (f : Detail → Option Json) (detail : Detail)
    (details : List Detail) :
    (details.map fun d ↦ (d.key n, f d)).lookup (detail.key m) =
      if m = n ∧ detail ∈ details then some (f detail) else none := by
  induction details with
  | nil => simp
  | cons d details ih =>
    rw [List.map_cons, Json.lookup_cons, ih]
    by_cases h : m = n ∧ detail = d
    · obtain ⟨rfl, rfl⟩ := h
      simp
    · rw [if_neg (mt Detail.key_inj.mp h)]
      have hiff : m = n ∧ detail ∈ d :: details ↔ m = n ∧ detail ∈ details := by
        rw [List.mem_cons]
        tauto
      simp only [hiff]

theorem lookup_attributes (n m : Nat) (a : Attachment) (path? : Option String) (detail : Detail) :
    (attributes n a path?).lookup (detail.key m) =
      if m = n then (detail.value a path?).map Json.str else none := by
  have hkeys : ((Detail.all.map fun detail ↦
      (detail.key n, (detail.value a path?).map Json.str)).map Prod.fst).Nodup := by
    rw [List.map_map]
    exact List.Nodup.map (fun d e hde ↦ (Detail.key_inj.mp hde).2) (by decide)
  have hrecord : attributes n a path? = (Detail.all.map fun detail ↦
      (detail.key n, (detail.value a path?).map Json.str)).filterMap
        fun p ↦ p.2.map (p.1, ·) := by
    simp only [attributes, List.filterMap_map, Function.comp_def, Option.map_map]
  have hall : detail ∈ Detail.all := by
    cases detail <;> decide
  rw [hrecord, Json.lookup_filterMap hkeys, lookup_details]
  by_cases h : m = n
  · rw [if_pos ⟨h, hall⟩, if_pos h]
    rfl
  · rw [if_neg fun hboth ↦ h hboth.1, if_neg h]
    rfl

theorem keys_head_sublist (event : Event) :
    List.Sublist ((head event).map Prod.fst) ((headFields event).map Prod.fst) := by
  have hrecord := Json.keys_sublist ((headFields event).map fun p ↦ (p.1, p.2.map Json.str))
  simpa only [head, List.filterMap_map, Function.comp_def, Option.map_map,
    List.map_map] using hrecord

theorem keys_attributes_sublist (n : Nat) (a : Attachment) (path? : Option String) :
    List.Sublist ((attributes n a path?).map Prod.fst) (Detail.all.map (Detail.key n)) := by
  have hrecord := Json.keys_sublist (Detail.all.map fun detail ↦
    (detail.key n, (detail.value a path?).map Json.str))
  simpa only [attributes, List.filterMap_map, Function.comp_def, Option.map_map,
    List.map_map] using hrecord

/-- Every key of the attachments has its number. -/
theorem mem_keys_attachmentsFrom {paths : List (Option String)} {i : Nat}
    {attachments : List Attachment} {key : String}
    (h : key ∈ (attachmentsFrom paths i attachments).map Prod.fst) :
    ∃ n detail, i < n ∧ key = Detail.key n detail := by
  induction attachments generalizing i with
  | nil => cases h
  | cons a attachments ih =>
    rw [attachmentsFrom, List.map_append, List.mem_append] at h
    rcases h with hhere | hlater
    · obtain ⟨p, hp, rfl⟩ := List.mem_map.mp hhere
      obtain ⟨detail, -, hvalue⟩ := List.mem_filterMap.mp hp
      obtain ⟨text, -, rfl⟩ := Option.map_eq_some_iff.mp hvalue
      exact ⟨i + 1, detail, Nat.lt_succ_self i, rfl⟩
    · obtain ⟨n, detail, hlt, rfl⟩ := ih hlater
      exact ⟨n, detail, by omega, rfl⟩

theorem nodup_keys_attachmentsFrom (paths : List (Option String)) (i : Nat)
    (attachments : List Attachment) :
    ((attachmentsFrom paths i attachments).map Prod.fst).Nodup := by
  induction attachments generalizing i with
  | nil => exact List.nodup_nil
  | cons a attachments ih =>
    rw [attachmentsFrom, List.map_append, List.nodup_append]
    refine ⟨?_, ih (i + 1), ?_⟩
    · exact (keys_attributes_sublist _ _ _).nodup
        (List.Nodup.map (fun d e hde ↦ (Detail.key_inj.mp hde).2) (by decide))
    · intro key hkey other hother heq
      obtain ⟨p, hp, rfl⟩ := List.mem_map.mp hkey
      obtain ⟨detail, -, hvalue⟩ := List.mem_filterMap.mp hp
      obtain ⟨text, -, rfl⟩ := Option.map_eq_some_iff.mp hvalue
      obtain ⟨n, detail', hlt, rfl⟩ := mem_keys_attachmentsFrom hother
      have hn := (Detail.key_inj.mp heq).1
      omega

theorem nodup_keys_metaEntries (inbound : Inbox.Inbound) :
    ((metaEntries inbound).map Prod.fst).Nodup := by
  have hsub := keys_head_sublist inbound.event
  rw [metaEntries, List.map_append, List.nodup_append]
  refine ⟨hsub.nodup ?_, nodup_keys_attachmentsFrom _ _ _, ?_⟩
  · simp only [headFields, List.map_cons, List.map_nil]
    decide
  · intro key hkey other hother heq
    obtain ⟨n, detail, -, rfl⟩ := mem_keys_attachmentsFrom hother
    exact Detail.key_ne_head inbound.event (heq ▸ hsub.subset hkey)

theorem lookup_attachmentsFrom (paths : List (Option String)) (i n : Nat)
    (attachments : List Attachment) (detail : Detail) :
    (attachmentsFrom paths i attachments).lookup (detail.key (i + n + 1)) =
      (attachments[n]?).bind fun a ↦ (detail.value a (paths[i + n]?).join).map Json.str := by
  induction attachments generalizing i n with
  | nil => rfl
  | cons a attachments ih =>
    rw [attachmentsFrom, List.lookup_append, lookup_attributes]
    cases n with
    | zero =>
      have hlater : (attachmentsFrom paths (i + 1) attachments).lookup (detail.key (i + 0 + 1)) =
          none := by
        apply Json.lookup_eq_none
        intro hmem
        obtain ⟨n, detail', hlt, heq⟩ := mem_keys_attachmentsFrom hmem
        have hn := (Detail.key_inj.mp heq).1
        omega
      rw [hlater, if_pos rfl, Option.or_none]
      rfl
    | succ n =>
      have hnext := ih (i + 1) n
      rw [show i + 1 + n = i + (n + 1) by omega] at hnext
      rw [if_neg (by omega), hnext]
      rfl

theorem lookup_metaEntries_key (inbound : Inbox.Inbound) (n : Nat) (detail : Detail) :
    (metaEntries inbound).lookup (detail.key (n + 1)) =
      (inbound.event.attachments[n]?).bind fun a ↦
        (detail.value a (inbound.paths[n]?).join).map Json.str := by
  have hhead : (head inbound.event).lookup (detail.key (n + 1)) = none := by
    apply Json.lookup_eq_none
    exact fun hmem ↦ Detail.key_ne_head inbound.event
      ((keys_head_sublist inbound.event).subset hmem)
  have hlater := lookup_attachmentsFrom inbound.paths 0 n inbound.event.attachments detail
  rw [Nat.zero_add] at hlater
  rw [metaEntries, List.lookup_append, hhead, Option.none_or, hlater]

theorem lookup_metaEntries_head (inbound : Inbox.Inbound) {name : String}
    (hname : name ∈ (headFields inbound.event).map Prod.fst) :
    (metaEntries inbound).lookup name =
      ((headFields inbound.event).lookup name).join.map Json.str := by
  have hkeys : (((headFields inbound.event).map fun p ↦ (p.1, p.2.map Json.str)).map
      Prod.fst).Nodup := by
    simp only [headFields, List.map_cons, List.map_nil]
    decide
  have hrecord : head inbound.event =
      ((headFields inbound.event).map fun p ↦ (p.1, p.2.map Json.str)).filterMap
        fun p ↦ p.2.map (p.1, ·) := by
    simp only [head, List.filterMap_map, Function.comp_def, Option.map_map]
  have hmap (fields : List (String × Option String)) :
      (fields.map fun p ↦ (p.1, p.2.map Json.str)).lookup name =
        (fields.lookup name).map (Option.map Json.str) := by
    induction fields with
    | nil => rfl
    | cons p fields ih =>
      rw [List.map_cons, Json.lookup_cons, Json.lookup_cons, ih]
      split <;> rfl
  have hlater : (attachmentsFrom inbound.paths 0 inbound.event.attachments).lookup name = none := by
    apply Json.lookup_eq_none
    intro hmem
    obtain ⟨n, detail, -, rfl⟩ := mem_keys_attachmentsFrom hmem
    exact Detail.key_ne_head inbound.event hname
  rw [metaEntries, List.lookup_append, hlater, Option.or_none, hrecord,
    Json.lookup_filterMap hkeys, hmap]
  cases (headFields inbound.event).lookup name <;> rfl

/-! ## The body -/

theorem pushLine_of_ne {content : String} (h : content ≠ "") (line : String) :
    pushLine content line = content ++ ("\n" ++ line) := by
  rw [pushLine, if_neg h, String.append_assoc]

/-- Lines that follow a text do not depend on it. -/
theorem exists_foldl_pushLine (lines : List String) :
    ∃ rest, ∀ content, content ≠ "" → lines.foldl pushLine content = content ++ rest := by
  induction lines with
  | nil => exact ⟨"", fun content _ ↦ by simp⟩
  | cons line lines ih =>
    obtain ⟨rest, hrest⟩ := ih
    refine ⟨"\n" ++ line ++ rest, fun content hne ↦ ?_⟩
    have hnext : content ++ ("\n" ++ line) ≠ "" := fun h ↦
      hne (String.append_eq_empty_iff.mp h).1
    rw [List.foldl_cons, pushLine_of_ne hne, hrest _ hnext]
    simp only [String.append_assoc]

theorem intercalate_ne_empty {sep line : String} {lines : List String} (h : line ≠ "") :
    sep.intercalate (line :: lines) ≠ "" := by
  intro heq
  have hlist := congrArg String.toList heq
  cases lines with
  | nil => simp at hlist; exact h hlist
  | cons other lines => simp at hlist; exact h hlist.1

/-- What comes with a file is not blank. -/
theorem body_ne_empty {event : Event} (h : event.attachments ≠ []) : body event ≠ "" := by
  unfold body
  split
  · obtain ⟨a, attachments, hcons⟩ := List.exists_cons_of_ne_nil h
    rw [hcons, List.map_cons]
    apply intercalate_ne_empty
    intro heq
    rw [String.append_assoc] at heq
    exact absurd (String.append_eq_empty_iff.mp heq).1 (by decide)
  · next hnot => exact fun htext ↦ hnot ⟨htext, h⟩

theorem missingFrom_congr {paths paths' : List (Option String)} {i : Nat}
    {attachments attachments' : List Attachment}
    (hnames : attachments.map Attachment.name = attachments'.map Attachment.name)
    (hpaths : ∀ n < attachments.length, (paths[i + n]?).join = (paths'[i + n]?).join) :
    missingFrom paths i attachments = missingFrom paths' i attachments' := by
  induction attachments generalizing i attachments' with
  | nil =>
    obtain rfl : attachments' = [] := by simpa using hnames.symm
    rfl
  | cons a attachments ih =>
    cases attachments' with
    | nil => cases hnames
    | cons a' attachments' =>
      obtain ⟨hname, hnames⟩ := List.cons.inj hnames
      have hhere := hpaths 0 (Nat.succ_pos _)
      have hrest :
          missingFrom paths (i + 1) attachments = missingFrom paths' (i + 1) attachments' :=
        ih hnames fun n hn ↦ by
          have hnext := hpaths (n + 1) (Nat.succ_lt_succ hn)
          rwa [show i + 1 + n = i + (n + 1) by omega]
      simp only [missingFrom, hrest, hname]
      rw [Nat.add_zero] at hhere
      rw [hhere]

/-- What two notifications have in common that show the same: everything but the address of the
sender, the transfers, and whether the text was spoken; and of an empty text beside files it makes
no difference whether it is empty or names them. -/
structure SameTag (i j : Inbox.Inbound) : Prop where
  kind : i.event.kind = j.event.kind
  person : i.event.person = j.event.person
  role : i.event.role = j.event.role
  roomId : i.event.roomId = j.event.roomId
  room : i.event.room = j.event.room
  eventId : i.event.eventId = j.event.eventId
  ts : i.event.ts = j.event.ts
  inReplyTo : i.event.inReplyTo = j.event.inReplyTo
  thread : i.event.thread = j.event.thread
  reactsTo : i.event.reactsTo = j.event.reactsTo
  attachments : i.event.attachments.map (fun a ↦ (a.name, a.mime, a.size)) =
    j.event.attachments.map fun a ↦ (a.name, a.mime, a.size)
  paths : ∀ n < i.event.attachments.length, (i.paths[n]?).join = (j.paths[n]?).join
  body : body i.event = body j.event

theorem attachmentsFrom_congr {paths paths' : List (Option String)} {i : Nat}
    {attachments attachments' : List Attachment}
    (hshown : attachments.map (fun a ↦ (a.name, a.mime, a.size)) =
      attachments'.map fun a ↦ (a.name, a.mime, a.size))
    (hpaths : ∀ n < attachments.length, (paths[i + n]?).join = (paths'[i + n]?).join) :
    attachmentsFrom paths i attachments = attachmentsFrom paths' i attachments' := by
  induction attachments generalizing i attachments' with
  | nil =>
    obtain rfl : attachments' = [] := by simpa using hshown.symm
    rfl
  | cons a attachments ih =>
    cases attachments' with
    | nil => cases hshown
    | cons a' attachments' =>
      obtain ⟨hshow, hshown⟩ := List.cons.inj hshown
      obtain ⟨hname, hmime, hsize⟩ : a.name = a'.name ∧ a.mime = a'.mime ∧ a.size = a'.size := by
        simpa using hshow
      have hhere := hpaths 0 (Nat.succ_pos _)
      rw [Nat.add_zero] at hhere
      have hrest := ih hshown fun n hn ↦ by
        have hnext := hpaths (n + 1) (Nat.succ_lt_succ hn)
        rwa [show i + 1 + n = i + (n + 1) by omega]
      have hvalue (detail : Detail) (path? : Option String) :
          detail.value a path? = detail.value a' path? := by
        cases detail <;> simp only [Detail.value, hname, hmime, hsize]
      simp only [attachmentsFrom, attributes, hvalue, hhere, hrest]

theorem SameTag.metaEntries_eq {i j : Inbox.Inbound} (h : SameTag i j) :
    metaEntries i = metaEntries j := by
  have hhead : head i.event = head j.event := by
    simp only [head, headFields, h.kind, h.person, h.role, h.roomId, h.room, h.eventId, h.ts,
      h.inReplyTo, h.thread, h.reactsTo]
  have hlater : attachmentsFrom i.paths 0 i.event.attachments =
      attachmentsFrom j.paths 0 j.event.attachments :=
    attachmentsFrom_congr h.attachments fun n hn ↦ by simpa only [Nat.zero_add] using h.paths n hn
  rw [metaEntries, metaEntries, hhead, hlater]

theorem missing_congr {i j : Inbox.Inbound}
    (hshown : i.event.attachments.map (fun a ↦ (a.name, a.mime, a.size)) =
      j.event.attachments.map fun a ↦ (a.name, a.mime, a.size))
    (hpaths : ∀ n < i.event.attachments.length, (i.paths[n]?).join = (j.paths[n]?).join) :
    missingFrom i.paths 0 i.event.attachments = missingFrom j.paths 0 j.event.attachments := by
  refine missingFrom_congr ?_ fun n hn ↦ by simpa only [Nat.zero_add] using hpaths n hn
  have hnames := congrArg (List.map Prod.fst) hshown
  simpa only [List.map_map, Function.comp_def] using hnames

/-- What the attributes tell of the attachments. -/
theorem attachments_of_lookup {i j : Inbox.Inbound}
    (h : ∀ name, (metaEntries i).lookup name = (metaEntries j).lookup name) :
    i.event.attachments.map (fun a ↦ (a.name, a.mime, a.size)) =
        j.event.attachments.map (fun a ↦ (a.name, a.mime, a.size)) ∧
      ∀ n < i.event.attachments.length, (i.paths[n]?).join = (j.paths[n]?).join := by
  have hdetail (n : Nat) (detail : Detail) := h (detail.key (n + 1))
  simp only [lookup_metaEntries_key] at hdetail
  have hboth (n : Nat) : (i.event.attachments[n]? = none ∧ j.event.attachments[n]? = none) ∨
      ∃ a b, i.event.attachments[n]? = some a ∧ j.event.attachments[n]? = some b ∧
        ∀ detail : Detail,
          detail.value a (i.paths[n]?).join = detail.value b (j.paths[n]?).join := by
    have hname := hdetail n .name
    cases ha : i.event.attachments[n]? with
    | none =>
      cases hb : j.event.attachments[n]? with
      | none => exact .inl ⟨rfl, rfl⟩
      | some b => simp [ha, hb, Detail.value] at hname
    | some a =>
      cases hb : j.event.attachments[n]? with
      | none => simp [ha, hb, Detail.value] at hname
      | some b =>
        refine .inr ⟨a, b, rfl, rfl, fun detail ↦ ?_⟩
        have hvalue := hdetail n detail
        simp only [ha, hb, Option.bind_some] at hvalue
        exact Option.map_injective (fun _ _ heq ↦ Json.str.inj heq) hvalue
  constructor
  · apply List.ext_getElem?
    intro n
    rw [List.getElem?_map, List.getElem?_map]
    rcases hboth n with ⟨ha, hb⟩ | ⟨a, b, ha, hb, hvalue⟩
    · rw [ha, hb]
    · have hname : a.name = b.name := Option.some.inj (hvalue .name)
      have hmime : a.mime = b.mime := Option.some.inj (hvalue .mime)
      have hsize : a.size = b.size := repr_inj (Option.some.inj (hvalue .size))
      rw [ha, hb, Option.map_some, Option.map_some, hname, hmime, hsize]
  · intro n hn
    rcases hboth n with ⟨ha, -⟩ | ⟨a, b, -, -, hvalue⟩
    · rw [List.getElem?_eq_getElem hn] at ha
      cases ha
    · exact hvalue .path

/-- What Claude Code is shown of an event is exactly this much of it: two notifications are the same
if and only if the events are in what `SameTag` lists.  So the notification says whom the event is
from by the name of the person and not by the address, and it keeps any two other events apart. -/
theorem channelParams_eq_iff (i j : Inbox.Inbound) :
    channelParams i = channelParams j ↔ SameTag i j := by
  constructor
  · intro h
    obtain ⟨hcontent, hmeta⟩ : content i = content j ∧
        Json.ofEntries (metaEntries i) = Json.ofEntries (metaEntries j) := by
      simpa [channelParams] using h
    have hlookup (name : String) : (metaEntries i).lookup name = (metaEntries j).lookup name := by
      rw [← Json.lookup_ofEntries (nodup_keys_metaEntries i), hmeta,
        Json.lookup_ofEntries (nodup_keys_metaEntries j)]
    obtain ⟨hshown, hpaths⟩ := attachments_of_lookup hlookup
    have hfield (name : String) (hname : name ∈ (headFields i.event).map Prod.fst) :
        ((headFields i.event).lookup name).join = ((headFields j.event).lookup name).join := by
      have heq := hlookup name
      rw [lookup_metaEntries_head i hname, lookup_metaEntries_head j hname] at heq
      exact Option.map_injective (fun _ _ heq ↦ Json.str.inj heq) heq
    have hmissing := missing_congr hshown hpaths
    have hnil : i.event.attachments = [] ↔ j.event.attachments = [] := by
      rw [← List.map_eq_nil_iff, hshown, List.map_eq_nil_iff]
    have hbody : body i.event = body j.event := by
      unfold content at hcontent
      by_cases h : i.event.attachments = []
      · rw [h, hnil.mp h] at hcontent
        exact hcontent
      · -- the lines for what is missing end both bodies
        obtain ⟨rest, hrest⟩ := exists_foldl_pushLine
          (missingFrom i.paths 0 i.event.attachments)
        rw [← hmissing, hrest _ (body_ne_empty h),
          hrest _ (body_ne_empty (mt hnil.mpr h))] at hcontent
        exact (String.append_left_inj rest).mp hcontent
    have hkind : i.event.kind = j.event.kind := by
      have heq := hfield "kind" List.mem_cons_self
      cases hi : i.event.kind <;> cases hj : j.event.kind <;> first
        | rfl
        | simp [headFields, hi, hj, EventKind.asStr] at heq
    have hrole : i.event.role = j.event.role := by
      have heq := hfield "role" (by simp [headFields])
      cases hi : i.event.role <;> cases hj : j.event.role <;> first
        | rfl
        | simp [headFields, hi, hj, Json.lookup_cons, Role.asStr] at heq
    have hroom : i.event.room = j.event.room := by
      have heq := hfield "room" (by simp [headFields])
      cases hi : i.event.room <;> cases hj : j.event.room <;> first
        | rfl
        | simp [headFields, hi, hj, Json.lookup_cons, RoomKind.asStr] at heq
    exact {
      kind := hkind
      person := by simpa [headFields, Json.lookup_cons] using hfield "person" (by simp [headFields])
      role := hrole
      roomId := by
        simpa [headFields, Json.lookup_cons] using hfield "room_id" (by simp [headFields])
      room := hroom
      eventId := by
        simpa [headFields, Json.lookup_cons] using hfield "event_id" (by simp [headFields])
      ts := by simpa [headFields, Json.lookup_cons] using hfield "ts" (by simp [headFields])
      inReplyTo := by
        simpa [headFields, Json.lookup_cons] using hfield "in_reply_to" (by simp [headFields])
      thread := by simpa [headFields, Json.lookup_cons] using hfield "thread" (by simp [headFields])
      reactsTo := by
        simpa [headFields, Json.lookup_cons] using hfield "reacts_to" (by simp [headFields])
      attachments := hshown
      paths := hpaths
      body := hbody }
  · intro h
    have hmissing := missing_congr h.attachments h.paths
    rw [channelParams, channelParams, h.metaEntries_eq, content, content, hmissing, h.body]

end ChannelTag

end Silta
