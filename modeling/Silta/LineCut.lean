import Silta.JournalCut
import Silta.LineReader

/-!
# A stream of messages that is cut off

Messages as lines of a socket that comes in reads of any length and may be lost at any byte.  What
the reader makes of it are the first of the lines as they were written, and of the next one at most
a part that stands for no message.
-/

namespace Silta

namespace LineCut

open ClientLines (LineError)
open LineReader (Reader Wake streamOf writeLine utf8 lf cr outcome finish upToError plainSplit)
open Transfer (Bytes)

/-- Messages whose texts are objects that can be read back. -/
structure Objects {M : Type} (json : M → Json) : Prop where
  obj : ∀ m, ∃ entries, json m = .obj entries
  within : ∀ m, (json m).Within recursionLimit

variable {M : Type} (json : M → Json)

def lineOf (m : M) : String := compact.text (json m)

/-- What has come of the stream: so many lines, and so many bytes of the next one. -/
def cut (ms : List M) (n j : Nat) : Bytes :=
  (ms.take n).flatMap (writeLine ∘ lineOf json) ++
    ms[n]?.elim [] fun m ↦ (utf8 (lineOf json m)).take j

/-- The messages whose lines have come, but perhaps for the last line break. -/
def arrived (ms : List M) (n j : Nat) : List M :=
  ms.take n ++ (ms[n]?.filter fun m ↦ (utf8 (lineOf json m)).length ≤ j).toList

/-- What a reader comes to after the lines that it has read: the end, an error, or a part of a line
before the end. -/
inductive Rest : List (Except LineError (Option String)) → Prop
  | «end» : Rest [.ok none]
  | error (err : LineError) : Rest [.error err]
  | part (line : String) (h : ∀ fields, compact.tree line ≠ some (.obj fields)) :
      Rest [.ok (some line), .ok none]

/-! ## A line and its parts -/

theorem utf8_inj {s t : String} (h : utf8 s = utf8 t) : s = t := by
  have hchars := congrArg Stream.fromUtf8Lossy h
  rw [show utf8 s = Stream.encode s.toList from rfl, show utf8 t = Stream.encode t.toList from rfl,
    Stream.fromUtf8Lossy_self, Stream.fromUtf8Lossy_self] at hchars
  exact String.toList_inj.mp hchars

/-- A part of an object's text is no object. -/
theorem ofText_ne_obj_of_take {cs : List Char} {entries : List (String × Json)}
    (h : Json.ofText cs = some (.obj entries)) {j : Nat} (hj : j < (Stream.encode cs).length)
    {s : String} (hs : utf8 s = (Stream.encode cs).take j) (fields : List (String × Json)) :
    Json.ofText s.toList ≠ some (.obj fields) := by
  obtain ⟨before, after, bytes, rfl, htake, hbytes, hafter⟩ := Stream.exists_cut cs j
  have hchars := congrArg Stream.fromUtf8Lossy (hs.trans htake)
  rw [show utf8 s = Stream.encode s.toList from rfl, Stream.fromUtf8Lossy_self,
    Stream.fromUtf8Lossy_encode] at hchars
  intro hobj
  by_cases hnil : Stream.fromUtf8Lossy bytes = []
  · rw [hchars, hnil, List.append_nil] at hobj
    rw [Json.ofText_append hobj (hafter hj)] at h
    cases h
  · -- what is left of a character that is cut comes last
    have hlast := Json.getLast?_of_ofText hobj
    rw [hchars, List.getLast?_append_of_ne_nil _ hnil] at hlast
    have hle := Stream.le_of_mem_fromUtf8Lossy hbytes _ (List.mem_of_getLast? hlast)
    exact absurd hle (by decide)

section Reading

variable {json}

theorem Objects.tree_lineOf (h : Objects json) (m : M) :
    compact.tree (lineOf json m) = some (json m) :=
  compact_lawful.tree_text _ (h.within m)

theorem breaks_lineOf (m : M) : lf ∉ utf8 (lineOf json m) ∧ cr ∉ utf8 (lineOf json m) := by
  obtain ⟨hlf, hcr⟩ := LineReader.oneLine_compact (json m)
  exact ⟨LineReader.notMem_utf8 (by decide) (by decide) hlf,
    LineReader.notMem_utf8 (by decide) (by decide) hcr⟩

theorem Objects.utf8_ne_nil (h : Objects json) (m : M) : utf8 (lineOf json m) ≠ [] := by
  intro hnil
  have hempty : lineOf json m = "" := utf8_inj hnil
  have htree := h.tree_lineOf m
  rw [hempty] at htree
  cases htree

theorem outcome_lineOf {m : M} {max : Nat} (hfits : (utf8 (lineOf json m)).length ≤ max) :
    outcome max (utf8 (lineOf json m)) = .ok (lineOf json m) := by
  rw [outcome, if_neg (by omega)]
  exact LineReader.finish_utf8 (LineReader.oneLine_compact (json m)).2

/-- Of a line that has not come to its end there is at most a text that is no object. -/
theorem Objects.rest_part (h : Objects json) {m : M} {j max : Nat}
    (hj : j < (utf8 (lineOf json m)).length) :
    Rest (upToError ((Lines.lines lf ((utf8 (lineOf json m)).take j)).map (outcome max))) := by
  obtain ⟨hlf, hcr⟩ : lf ∉ utf8 (lineOf json m) ∧ cr ∉ utf8 (lineOf json m) := breaks_lineOf m
  by_cases hnil : (utf8 (lineOf json m)).take j = []
  · rw [hnil, Lines.lines_nil]
    exact .end
  rw [Lines.lines_of_notMem (fun h ↦ hlf (List.mem_of_mem_take h)) hnil, List.map_singleton]
  by_cases hlong : max < ((utf8 (lineOf json m)).take j).length
  · rw [outcome, if_pos hlong]
    exact .error _
  have hend : ((utf8 (lineOf json m)).take j).getLast? ≠ some cr := fun h ↦
    hcr (List.mem_of_mem_take (List.mem_of_getLast? h))
  rw [outcome, if_neg hlong, finish, if_neg hend]
  cases hdecode : String.fromUTF8? ((utf8 (lineOf json m)).take j).toByteArray with
  | none => exact .error _
  | some line =>
    have hbytes : utf8 line = (utf8 (lineOf json m)).take j := by
      apply List.toByteArray_inj.mp
      rw [LineReader.toByteArray_utf8]
      unfold String.fromUTF8? at hdecode
      split at hdecode
      · rw [← Option.some.inj hdecode]
        rfl
      · cases hdecode
    obtain ⟨entries, hentries⟩ := h.obj m
    have htree := h.tree_lineOf m
    rw [hentries] at htree
    exact .part line (ofText_ne_obj_of_take htree hj hbytes)

/-! ## The lines of a stream -/

theorem arrived_eq (ms : List M) (n j : Nat) : ∃ k, arrived json ms n j = ms.take k := by
  unfold arrived
  cases hnext : ms[n]? with
  | none => exact ⟨n, List.append_nil _⟩
  | some m =>
    rw [Option.filter_some]
    split
    · refine ⟨n + 1, ?_⟩
      rw [List.take_add_one, hnext]
    · exact ⟨n, List.append_nil _⟩

theorem mem_of_mem_arrived {ms : List M} {n j : Nat} {m : M} (h : m ∈ arrived json ms n j) :
    m ∈ ms := by
  obtain ⟨k, hk⟩ : ∃ k, arrived json ms n j = ms.take k := arrived_eq ms n j
  rw [hk] at h
  exact List.mem_of_mem_take h

theorem arrived_of_le {ms : List M} {n : Nat} (h : ms.length ≤ n) (j : Nat) :
    arrived json ms n j = ms := by
  unfold arrived
  rw [List.take_of_length_le h, List.getElem?_eq_none h]
  exact List.append_nil ms

theorem cut_ne_nil {ms : List M} {m : M} (h : m ∈ ms) : cut json ms ms.length 0 ≠ [] := by
  rw [cut, List.take_length]
  apply List.append_ne_nil_of_left_ne_nil
  intro hnil
  have hline := List.flatMap_eq_nil_iff.mp hnil m h
  simp [LineReader.writeLine] at hline

/-- The lines of a cut stream: those of the messages whose lines have come, and perhaps a part of
the next one. -/
theorem Objects.lines_cut (h : Objects json) (ms : List M) (n j : Nat) :
    ∃ rest, Lines.lines lf (cut json ms n j) =
        (arrived json ms n j).map (utf8 ∘ lineOf json) ++ rest ∧
      ∀ max, Rest (upToError (rest.map (outcome max))) := by
  have hflat : (ms.take n).flatMap (writeLine ∘ lineOf json) =
      ((ms.take n).map (utf8 ∘ lineOf json)).flatMap (· ++ [lf]) := by
    rw [List.flatMap_map]
    rfl
  have hlines : ∀ line ∈ (ms.take n).map (utf8 ∘ lineOf json), lf ∉ line := by
    intro line hline
    obtain ⟨m, -, rfl⟩ := List.mem_map.mp hline
    exact (breaks_lineOf m).1
  rw [cut, hflat, Lines.lines_flatMap_append hlines, arrived, List.map_append]
  cases hnext : ms[n]? with
  | none =>
    refine ⟨[], ?_, fun _ ↦ .end⟩
    rw [Option.elim_none, Lines.lines_nil]
    simp
  | some m =>
    rw [Option.elim_some, Option.filter_some]
    by_cases hj : (utf8 (lineOf json m)).length ≤ j
    · refine ⟨[], ?_, fun _ ↦ .end⟩
      rw [List.take_of_length_le hj, Lines.lines_of_notMem (breaks_lineOf m).1 (h.utf8_ne_nil m),
        if_pos (decide_eq_true hj)]
      simp
    · refine ⟨_, ?_, fun _ ↦ h.rest_part (Nat.lt_of_not_le hj)⟩
      rw [if_neg (by simpa using hj)]
      simp

/-- Lines that fit are read as they were written. -/
theorem upToError_whole {max : Nat} {ms : List M}
    (hfits : ∀ m ∈ ms, (utf8 (lineOf json m)).length ≤ max) (rest : List Bytes) :
    upToError ((ms.map (utf8 ∘ lineOf json) ++ rest).map (outcome max)) =
      (ms.map fun m ↦ .ok (some (lineOf json m))) ++ upToError (rest.map (outcome max)) := by
  induction ms with
  | nil => rfl
  | cons m ms ih =>
    rw [List.map_cons, List.cons_append, List.map_cons, Function.comp_apply,
      outcome_lineOf (hfits m List.mem_cons_self), upToError,
      ih fun m' h ↦ hfits m' (List.mem_cons_of_mem m h)]
    rfl

/-- However the stream is cut into reads, and wherever it ends, what is read are the first of the
messages: those whose lines have come, up to one that is too long. -/
theorem Objects.results_cut (h : Objects json) {ms : List M} {n j : Nat} (max : Nat)
    {wakes : List Wake} (hstream : streamOf wakes = cut json ms n j) :
    ∃ k rest, (Reader.withMax max).results wakes =
        ((ms.take k).map fun m ↦ .ok (some (lineOf json m))) ++ rest ∧ Rest rest ∧
      ((∀ m ∈ arrived json ms n j, (utf8 (lineOf json m)).length ≤ max) →
        ms.take k = arrived json ms n j) := by
  have hresults : (Reader.withMax max).results wakes = plainSplit max (streamOf wakes) :=
    (Reader.withMax max).results_eq wakes
  obtain ⟨k, hk⟩ : ∃ k, arrived json ms n j = ms.take k := arrived_eq ms n j
  obtain ⟨rest, hlines, hrest⟩ := h.lines_cut ms n j
  rw [hresults, hstream, plainSplit, hlines]
  by_cases hfits : ∀ m ∈ arrived json ms n j, (utf8 (lineOf json m)).length ≤ max
  · refine ⟨k, _, ?_, hrest max, fun _ ↦ hk.symm⟩
    rw [upToError_whole hfits, hk]
  · -- the first line that is too long ends it
    have hsome : ((arrived json ms n j).find? fun m ↦
        max < (utf8 (lineOf json m)).length).isSome := by
      simpa using hfits
    obtain ⟨long, hlong⟩ := Option.isSome_iff_exists.mp hsome
    obtain ⟨hmax, before, after, heq, hbefore⟩ := List.find?_eq_some_iff_append.mp hlong
    have htake : ms.take before.length = before := by
      have hlength : before.length ≤ k := by
        have hle := congrArg List.length (heq.symm.trans hk)
        rw [List.length_append, List.length_cons, List.length_take] at hle
        omega
      calc ms.take before.length
          = (ms.take k).take before.length := by
            rw [List.take_take, Nat.min_eq_left hlength]
        _ = before := by rw [← hk, heq, List.take_left']; rfl
    have hsplit : (before ++ long :: after).map (utf8 ∘ lineOf json) ++ rest =
        before.map (utf8 ∘ lineOf json) ++
          (utf8 (lineOf json long) :: (after.map (utf8 ∘ lineOf json) ++ rest)) := by
      simp
    refine ⟨before.length, [.error .tooLong], ?_, .error _, fun hall ↦ absurd hall hfits⟩
    rw [heq, hsplit, upToError_whole (fun m hm ↦ by simpa using hbefore m hm), htake,
      List.map_cons, outcome, if_pos (of_decide_eq_true hmax)]
    rfl

end Reading

end LineCut

end Silta
