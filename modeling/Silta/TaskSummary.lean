import Mathlib.Data.String.Basic
import Silta.Journal

/-!
# The summary of a task

A task notification carries a summary, which is prose that the journal is to leave out.  The line
keeps every text without a whitespace character, so that a summary of one word stays, and one in a
script that does not write any; here is exactly when two summaries give the same line.
-/

namespace Silta

/-! ## Sorted maps -/

namespace Json

/-- The entries of a `BTreeMap`. -/
def Increasing (entries : List (String × Json)) : Prop := entries.Pairwise fun p q ↦ p.1 < q.1

theorem mem_keys_insertKey {p : String × Json} {entries : List (String × Json)} {name : String}
    (h : name ∈ (insertKey p entries).map Prod.fst) : name = p.1 ∨ name ∈ entries.map Prod.fst := by
  induction entries with
  | nil => exact .inl (List.mem_singleton.mp h)
  | cons q entries ih =>
    rw [insertKey] at h
    split at h
    · exact List.mem_cons.mp h
    · split at h
      · next heq =>
        rcases List.mem_cons.mp h with h | h
        · exact .inl h
        · exact .inr (List.mem_cons_of_mem _ h)
      · rcases List.mem_cons.mp h with h | h
        · exact .inr (h ▸ List.mem_cons_self ..)
        · rcases ih h with h | h
          · exact .inl h
          · exact .inr (List.mem_cons_of_mem _ h)

theorem increasing_cons {p : String × Json} {entries : List (String × Json)} :
    Increasing (p :: entries) ↔
      (∀ name ∈ entries.map Prod.fst, p.1 < name) ∧ Increasing entries := by
  rw [Increasing, List.pairwise_cons, List.forall_mem_map]
  rfl

theorem increasing_insertKey (p : String × Json) {entries : List (String × Json)}
    (h : Increasing entries) : Increasing (insertKey p entries) := by
  induction entries with
  | nil => exact List.pairwise_singleton ..
  | cons q entries ih =>
    obtain ⟨hfirst, hrest⟩ := increasing_cons.mp h
    rw [insertKey]
    split
    · next hlt =>
      apply increasing_cons.mpr
      refine ⟨fun name hname ↦ ?_, h⟩
      rcases List.mem_cons.mp hname with rfl | hname
      · exact hlt
      · exact hlt.trans (hfirst name hname)
    · next hlt =>
      split
      · next heq => exact increasing_cons.mpr ⟨heq ▸ hfirst, hrest⟩
      · next hne =>
        apply increasing_cons.mpr
        refine ⟨fun name hname ↦ ?_, ih hrest⟩
        rcases mem_keys_insertKey hname with rfl | hname
        · exact lt_of_le_of_ne (not_lt.mp hlt) (Ne.symm hne)
        · exact hfirst name hname

theorem increasing_ofEntries (entries : List (String × Json)) : Increasing (ofEntries entries) := by
  induction entries using List.reverseRecOn with
  | nil => exact List.Pairwise.nil
  | append_singleton entries p ih =>
    have hfold : ofEntries (entries ++ [p]) = insertKey p (ofEntries entries) :=
      List.foldl_append ..
    rw [hfold]
    exact increasing_insertKey p ih

/-- What a parsed object holds is sorted. -/
theorem increasing_of_sorted {value : Json} {fields : List (String × Json)}
    (h : value.sorted = .obj fields) : Increasing fields := by
  cases value with
  | obj entries =>
    rw [sorted] at h
    cases h
    exact increasing_ofEntries _
  | _ => simp only [sorted, reduceCtorEq] at h

theorem lookup_isSome_iff {entries : List (String × Json)} {name : String} :
    (entries.lookup name).isSome = true ↔ name ∈ entries.map Prod.fst := by
  constructor
  · intro h
    by_contra hnot
    rw [lookup_eq_none hnot] at h
    cases h
  · intro h
    induction entries with
    | nil => cases h
    | cons p entries ih =>
      rw [lookup_cons]
      split
      · rfl
      · next hne =>
        rcases List.mem_cons.mp h with h | h
        · exact absurd h hne
        · exact ih h

/-- Sorted maps that read the same are the same. -/
theorem eq_of_lookup_eq {entries entries' : List (String × Json)} (h : Increasing entries)
    (h' : Increasing entries') (heq : ∀ name, entries.lookup name = entries'.lookup name) :
    entries = entries' := by
  have hkeys : ∀ name, name ∈ entries.map Prod.fst ↔ name ∈ entries'.map Prod.fst := fun name ↦ by
    rw [← lookup_isSome_iff, heq, lookup_isSome_iff]
  induction entries generalizing entries' with
  | nil =>
    cases entries' with
    | nil => rfl
    | cons q entries' => exact absurd ((hkeys q.1).mpr (List.mem_cons_self ..)) List.not_mem_nil
  | cons p entries ih =>
    cases entries' with
    | nil => exact absurd ((hkeys p.1).mp (List.mem_cons_self ..)) List.not_mem_nil
    | cons q entries' =>
      obtain ⟨hfirst, hrest⟩ := increasing_cons.mp h
      obtain ⟨hfirst', hrest'⟩ := increasing_cons.mp h'
      -- the smallest key of each is a key of the other
      have hkey : p.1 = q.1 := by
        rcases List.mem_cons.mp ((hkeys p.1).mp (List.mem_cons_self ..)) with hp | hp
        · exact hp
        · rcases List.mem_cons.mp ((hkeys q.1).mpr (List.mem_cons_self ..)) with hq | hq
          · exact hq.symm
          · exact absurd (hfirst q.1 hq) (lt_asymm (hfirst' p.1 hp))
      have hvalue : p.2 = q.2 := by
        have hat := heq p.1
        rw [lookup_cons, lookup_cons, if_pos rfl, if_pos hkey] at hat
        exact Option.some.inj hat
      have hnot : p.1 ∉ entries.map Prod.fst := fun hmem ↦ lt_irrefl _ (hfirst p.1 hmem)
      have hnot' : p.1 ∉ entries'.map Prod.fst := fun hmem ↦
        lt_irrefl _ ((hkey ▸ hfirst') p.1 hmem)
      have htail : ∀ name, entries.lookup name = entries'.lookup name := by
        intro name
        by_cases hname : name = p.1
        · rw [hname, lookup_eq_none hnot, lookup_eq_none hnot']
        · have hat := heq name
          rwa [lookup_cons, lookup_cons, if_neg hname, if_neg (hkey ▸ hname)] at hat
      have hentries := ih hrest hrest' htail fun name ↦ by
        rw [← lookup_isSome_iff, htail, lookup_isSome_iff]
      rw [hentries, Prod.ext hkey hvalue]

/-- An entry in its place. -/
theorem insertKey_append {key : String} {value other : Json} {before after : List (String × Json)}
    (h : Increasing (before ++ (key, value) :: after)) :
    insertKey (key, other) (before ++ (key, value) :: after) =
      before ++ (key, other) :: after := by
  induction before with
  | nil =>
    rw [List.nil_append, insertKey, if_neg (lt_irrefl key), if_pos rfl]
    rfl
  | cons p before ih =>
    obtain ⟨hfirst, hrest⟩ := increasing_cons.mp h
    have hlt : p.1 < key := hfirst key (by simp)
    rw [List.cons_append, insertKey, if_neg (lt_asymm hlt), if_neg hlt.ne', ih hrest]
    rfl

/-- Maps that differ in one value. -/
theorem exists_append_of_agree {key : String} {entries entries' : List (String × Json)}
    {value value' : Json} (h : Increasing entries) (h' : Increasing entries')
    (hagree : ∀ name, name ≠ key → entries.lookup name = entries'.lookup name)
    (hvalue : entries.lookup key = some value) (hvalue' : entries'.lookup key = some value') :
    ∃ before after, entries = before ++ (key, value) :: after ∧
      entries' = before ++ (key, value') :: after := by
  obtain ⟨before, after, hentries, -⟩ := List.lookup_eq_some_iff.mp hvalue
  have hinsert : insertKey (key, value') entries = before ++ (key, value') :: after := by
    rw [hentries] at h ⊢
    exact insertKey_append h
  refine ⟨before, after, hentries, ?_⟩
  rw [← hinsert]
  apply eq_of_lookup_eq h' (increasing_insertKey _ h)
  intro name
  rw [lookup_insertKey]
  split
  · next heq => rw [heq, hvalue']
  · next hne => exact (hagree name hne).symm

end Json

namespace Stream

/-! ## Joined parts -/

/-- A part stands between what comes of the parts before it and of those after it. -/
theorem exists_around (before after : List String) :
    ∃ first last, ∀ text, " ".intercalate (before ++ text :: after) = first ++ text ++ last := by
  cases after with
  | nil =>
    by_cases hbefore : before = []
    · exact ⟨"", "", fun text ↦ by simp [hbefore]⟩
    · refine ⟨" ".intercalate before ++ " ", "", fun text ↦ ?_⟩
      rw [String.intercalate_append_of_ne_nil hbefore (by simp), String.intercalate_singleton,
        String.append_empty]
  | cons next after =>
    have hlast : ∀ text, " ".intercalate (text :: next :: after) =
        text ++ (" " ++ " ".intercalate (next :: after)) := fun text ↦ by
      rw [String.intercalate_cons_cons, String.append_assoc]
    by_cases hbefore : before = []
    · refine ⟨"", " " ++ " ".intercalate (next :: after), fun text ↦ ?_⟩
      rw [hbefore, List.nil_append, hlast, String.empty_append]
    · refine ⟨" ".intercalate before ++ " ", " " ++ " ".intercalate (next :: after),
        fun text ↦ ?_⟩
      rw [String.intercalate_append_of_ne_nil hbefore (by simp), hlast, String.append_assoc,
        String.append_assoc, String.append_assoc]

/-- A part that is no empty text makes the line longer. -/
theorem length_lt_intercalate (before after : List String) {text : String}
    (htext : 0 < text.length) :
    (" ".intercalate (before ++ after)).length <
      (" ".intercalate (before ++ text :: after)).length := by
  have hspace : " ".length = 1 := rfl
  by_cases hbefore : before = []
  · by_cases hafter : after = []
    · simpa [hbefore, hafter] using htext
    · rw [hbefore, List.nil_append, List.nil_append, String.intercalate_cons_of_ne_nil hafter,
        String.length_append, String.length_append]
      omega
  · rw [String.intercalate_append_of_ne_nil hbefore (by simp : text :: after ≠ [])]
    by_cases hafter : after = []
    · rw [hafter, List.append_nil, String.intercalate_singleton, String.length_append,
        String.length_append]
      omega
    · rw [String.intercalate_append_of_ne_nil hbefore hafter,
        String.intercalate_cons_of_ne_nil hafter]
      simp only [String.length_append]
      omega

/-! ## Texts without whitespace -/

/-- A text with a whitespace character. -/
def Prose (s : String) : Prop := ∃ c ∈ s.toList, Transfer.isWhitespace c = true

instance (s : String) : Decidable (Prose s) :=
  decidable_of_iff (s.toList.any Transfer.isWhitespace = true) List.any_eq_true

theorem all_eq_true_iff (s : String) :
    (s.toList.all fun c ↦ !Transfer.isWhitespace c) = true ↔ ¬Prose s := by
  rw [List.all_eq_true]
  simp only [Prose, Bool.not_eq_true', not_exists, not_and, Bool.not_eq_true]

/-- Nothing is there to split. -/
theorem splitWhitespace_of_not_prose {s : String} (h : ¬Prose s) :
    " ".intercalate (splitWhitespace s) = s := by
  have hsplit : s.toList.splitOnP Transfer.isWhitespace = [s.toList] := by
    apply List.splitOnP_eq_singleton
    intro c hc
    exact Bool.eq_false_of_not_eq_true fun hspace ↦ h ⟨c, hc, hspace⟩
  unfold splitWhitespace
  rw [hsplit]
  by_cases hempty : s.toList = []
  · rw [String.toList_eq_nil_iff.mp hempty]
    rfl
  · rw [List.filter_cons_of_pos (by simpa using hempty)]
    simp

theorem shorten_of_not_prose {s : String} (h : ¬Prose s) (max : Nat) :
    shorten s max =
      if s.length ≤ max then s else String.ofList (s.toList.take max) ++ "…" := by
  unfold shorten
  rw [splitWhitespace_of_not_prose h]

/-- Two texts that are cut to the same. -/
def SameStart (max : Nat) (s t : String) : Prop :=
  max < s.length ∧ max < t.length ∧ s.toList.take max = t.toList.take max

theorem length_cut {s : String} {max : Nat} (h : max < s.length) :
    (String.ofList (s.toList.take max) ++ "…").length = max + 1 := by
  rw [String.length_append, String.length_ofList, List.length_take, String.length_toList,
    Nat.min_eq_left h.le]
  rfl

/-- A text that is cut is longer than any that is not, by its ellipsis. -/
theorem ne_cut {s t : String} {max : Nat} (hs : s.length ≤ max) (ht : max < t.length) :
    s ≠ String.ofList (t.toList.take max) ++ "…" := by
  intro heq
  have hlen := length_cut ht
  rw [← heq] at hlen
  omega

theorem shorten_eq_iff {s t : String} (hs : ¬Prose s) (ht : ¬Prose t) (max : Nat) :
    shorten s max = shorten t max ↔ s = t ∨ SameStart max s t := by
  rw [shorten_of_not_prose hs, shorten_of_not_prose ht]
  unfold SameStart
  by_cases hshort : s.length ≤ max
  · rw [if_pos hshort]
    by_cases hshort' : t.length ≤ max
    · rw [if_pos hshort']
      exact ⟨.inl, fun h ↦ h.elim id fun h ↦ absurd h.1 (by omega)⟩
    · rw [if_neg hshort']
      constructor
      · exact fun heq ↦ absurd heq (ne_cut hshort (not_le.mp hshort'))
      · rintro (rfl | h)
        · exact absurd hshort hshort'
        · omega
  · rw [if_neg hshort]
    by_cases hshort' : t.length ≤ max
    · rw [if_pos hshort']
      constructor
      · exact fun heq ↦ absurd heq.symm (ne_cut hshort' (not_le.mp hshort))
      · rintro (rfl | h)
        · exact absurd hshort' hshort
        · omega
    · -- both are cut, and the ellipsis is the same
      rw [if_neg hshort', String.append_left_inj, String.ofList_inj]
      constructor
      · intro heq
        exact .inr ⟨not_le.mp hshort, not_le.mp hshort', heq⟩
      · rintro (rfl | h)
        · rfl
        · exact h.2.2

/-! ## The line of a notification -/

/-- Two lines of one notification, with two summaries. -/
structure TwoNotices (format : Format) (line line' : String) (v w : Json) (s t : String) :
    Prop where
  line : parse format line = some v
  line' : parse format line' = some w
  kind : kind v = "system"
  subtype : Json.string (v.get "subtype") = some "task_notification"
  agree : AgreeBut "summary" v w
  summary : v.get "summary" = some (.str s)
  summary' : w.get "summary" = some (.str t)

theorem systemPart_of_prose (format : Format) {s : String} (h : Prose s) :
    systemPart format ("summary", .str s) = none := by
  have hall : ¬(s.toList.all fun c ↦ !Transfer.isWhitespace c) = true := fun hall ↦
    (all_eq_true_iff s).mp hall h
  show part _ _ = none
  exact if_neg hall

theorem systemPart_of_not_prose (format : Format) {s : String} (h : ¬Prose s) :
    systemPart format ("summary", .str s) = some ("summary=" ++ shorten s 200) := by
  show part _ _ = _
  exact if_pos ((all_eq_true_iff s).mpr h)

/-- The line of a notification, by what stands on either side of the summary. -/
theorem read_notice {format : Format} {line : String} {before after : List (String × Json)}
    {summary : Json}
    (hline : parse format line = some (.obj (before ++ ("summary", summary) :: after)))
    (hkind : kind (.obj (before ++ ("summary", summary) :: after)) = "system")
    (hsubtype : Json.string (Json.get "subtype" (.obj (before ++ ("summary", summary) :: after))) =
      some "task_notification") :
    (read format line).1 = "system " ++ "task_notification" ++ ": " ++ " ".intercalate
      (before.filterMap (systemPart format) ++ ((systemPart format ("summary", summary)).toList ++
        (after ++ entries (Json.get "compact_metadata" (.obj (before ++ ("summary", summary) ::
          after)))).filterMap (systemPart format))) := by
  have hsub : strOf (.obj (before ++ ("summary", summary) :: after)) "subtype" =
      "task_notification" := by
    rw [strOf, hsubtype]
    rfl
  rw [read_eq_readMap hline (by rw [hkind]; decide), readMap, hkind]
  show system format _ = _
  unfold system
  dsimp only
  rw [hsub, if_neg (by decide), if_neg (by decide)]
  congr 2
  generalize entries (Json.get "compact_metadata" _) = nested
  show (before ++ ("summary", summary) :: after ++ nested).filterMap _ = _
  rw [List.append_assoc, List.filterMap_append, List.cons_append, List.filterMap_cons]
  congr 1
  cases systemPart format ("summary", summary) with
  | none => rfl
  | some text => rfl

/-- The two lines, which differ in one part at most. -/
theorem TwoNotices.exists_parts {format : Format} {line line' : String} {v w : Json} {s t : String}
    (h : TwoNotices format line line' v w s t) : ∃ before after : List String,
      (read format line).1 = "system " ++ "task_notification" ++ ": " ++ " ".intercalate
        (before ++ ((systemPart format ("summary", .str s)).toList ++ after)) ∧
      (read format line').1 = "system " ++ "task_notification" ++ ": " ++ " ".intercalate
        (before ++ ((systemPart format ("summary", .str t)).toList ++ after)) := by
  obtain ⟨hline, hline', hkind, hsubtype, hagree, hsummary, hsummary'⟩ := h
  have hkind' : Stream.kind w = "system" := by
    rw [← hkind, Stream.kind, Stream.kind, hagree.strOf (by decide)]
  have hsubtype' : Json.string (w.get "subtype") = some "task_notification" := by
    rw [← hagree "subtype" (by decide), hsubtype]
  have hnested : v.get "compact_metadata" = w.get "compact_metadata" :=
    hagree "compact_metadata" (by decide)
  cases v with
  | obj fields =>
    cases w with
    | obj fields' =>
      have hsorted : Json.Increasing fields := by
        obtain ⟨value, -, hvalue⟩ := Option.map_eq_some_iff.mp hline
        exact Json.increasing_of_sorted hvalue
      have hsorted' : Json.Increasing fields' := by
        obtain ⟨value, -, hvalue⟩ := Option.map_eq_some_iff.mp hline'
        exact Json.increasing_of_sorted hvalue
      obtain ⟨before, after, rfl, rfl⟩ :=
        Json.exists_append_of_agree hsorted hsorted' hagree hsummary hsummary'
      refine ⟨_, _, read_notice hline hkind hsubtype, ?_⟩
      rw [read_notice hline' hkind' hsubtype', hnested]
    | _ => cases hsummary'
  | _ => cases hsummary

/-- A summary that stays makes the line longer than one that does not. -/
theorem parts_ne {format : Format} {s t : String} (hs : Prose s) (ht : ¬Prose t)
    (before after : List String) :
    " ".intercalate (before ++ ((systemPart format ("summary", .str s)).toList ++ after)) ≠
      " ".intercalate (before ++ ((systemPart format ("summary", .str t)).toList ++ after)) := by
  rw [systemPart_of_prose format hs, systemPart_of_not_prose format ht]
  have hkept : 0 < ("summary=" ++ shorten t 200).length := by
    rw [String.length_append]
    exact Nat.add_pos_left (by decide) _
  have hlt := length_lt_intercalate before after hkept
  intro heq
  exact absurd (congrArg String.length heq) hlt.ne

/-- Two summaries give the same line where both are prose, or where they are cut to the same. -/
theorem read_eq_iff_summary {format : Format} {line line' : String} {v w : Json} {s t : String}
    (h : TwoNotices format line line' v w s t) :
    (read format line).1 = (read format line').1 ↔
      s = t ∨ (Prose s ∧ Prose t) ∨ (¬Prose s ∧ ¬Prose t ∧ SameStart 200 s t) := by
  obtain ⟨before, after, hline, hline'⟩ := h.exists_parts
  rw [hline, hline', String.append_right_inj]
  by_cases hs : Prose s
  · by_cases ht : Prose t
    · rw [systemPart_of_prose format hs, systemPart_of_prose format ht]
      exact ⟨fun _ ↦ .inr (.inl ⟨hs, ht⟩), fun _ ↦ rfl⟩
    · constructor
      · exact fun heq ↦ absurd heq (parts_ne hs ht before after)
      · rintro (rfl | ⟨-, h⟩ | ⟨h, -⟩)
        · exact absurd hs ht
        · exact absurd h ht
        · exact absurd hs h
  · by_cases ht : Prose t
    · constructor
      · exact fun heq ↦ absurd heq.symm (parts_ne ht hs before after)
      · rintro (rfl | ⟨h, -⟩ | ⟨-, h, -⟩)
        · exact absurd ht hs
        · exact absurd h hs
        · exact absurd ht h
    · -- both stay, between the same parts
      rw [systemPart_of_not_prose format hs, systemPart_of_not_prose format ht]
      obtain ⟨first, last, haround⟩ := exists_around before after
      show " ".intercalate (before ++ _ :: after) = " ".intercalate (before ++ _ :: after) ↔ _
      rw [haround, haround, String.append_left_inj, String.append_right_inj,
        String.append_right_inj, shorten_eq_iff hs ht]
      simp only [hs, ht, false_and, not_false_iff, true_and, false_or]

/-- The end of a task with its summary. -/
def notice (summary : String) : Json :=
  .obj [("subtype", .str "task_notification"), ("summary", .str summary), ("type", .str "system")]

theorem parse_notice (summary : String) :
    parse compact (compact.text (notice summary)) = some (notice summary) := by
  have hwithin : (notice summary).Within recursionLimit := by
    simp [notice, recursionLimit, Json.Within]
  have hkeys : ∀ key ∈ ["subtype", "summary"], ¬"type" < key ∧ "type" ≠ key := by decide
  have hsummary : ¬"summary" < "subtype" := by decide
  simp only [List.forall_mem_cons] at hkeys
  have hsorted : (notice summary).sorted = notice summary := by
    simp [notice, Json.sorted, Json.sortedEntries, Json.ofEntries, Json.insertKey, hkeys, hsummary]
  rw [parse_written compact_lawful hwithin, hsorted]

theorem twoNotices_notice (s t : String) :
    TwoNotices compact (compact.text (notice s)) (compact.text (notice t)) (notice s) (notice t)
      s t where
  line := parse_notice s
  line' := parse_notice t
  kind := rfl
  subtype := rfl
  agree name hne := by
    show List.lookup name _ = List.lookup name _
    simp only [Json.lookup_cons, if_neg hne]
  summary := rfl
  summary' := rfl

theorem read_eq_iff_summary_sentences :
    (read compact (compact.text (notice "The answer is no."))).1 =
      (read compact (compact.text (notice "The answer is yes."))).1 :=
  (read_eq_iff_summary (twoNotices_notice _ _)).mpr
    (.inr (.inl ⟨by decide +kernel, by decide +kernel⟩))

/-- An answer in Chinese reaches the journal whole. -/
theorem read_summary :
    ¬∀ (format : Format) (line line' : String) (v w : Json) (s t : String),
      TwoNotices format line line' v w s t → (read format line).1 = (read format line').1 := by
  intro h
  have heq := h _ _ _ _ _ _ _ (twoNotices_notice "他同意了。" "他拒绝了。")
  have hkind : ∀ summary, kind (notice summary) ≠ "?" := fun summary ↦ (by decide : "system" ≠ "?")
  rw [read_eq_readMap (parse_notice _) (hkind _), read_eq_readMap (parse_notice _) (hkind _)] at heq
  exact absurd heq (by decide +kernel)

end Stream

end Silta
