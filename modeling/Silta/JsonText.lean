import Silta.ClientMessages

/-!
# JSON texts

A compact printer of JSON values, with the short escapes, and a reader of what it prints.  Values
with a float are left out: how one is printed is not fixed here.
-/

namespace Silta

namespace Json

/-! ## Printing -/

def shortEscapes : List (Char × Char) :=
  [('"', '"'), ('\\', '\\'), ('\x08', 'b'), ('\x0c', 'f'), ('\n', 'n'), ('\r', 'r'), ('\t', 't')]

def escape (c : Char) : List Char :=
  match shortEscapes.lookup c with
  | some e => ['\\', e]
  | none =>
    if c.toNat < 0x20 then
      ['\\', 'u', '0', '0', Nat.digitChar (c.toNat / 16), Nat.digitChar (c.toNat % 16)]
    else
      [c]

def quoted (s : String) : List Char := '"' :: s.toList.flatMap escape ++ ['"']

mutual

def text : Json → List Char
  | .null => ['n', 'u', 'l', 'l']
  | .bool true => ['t', 'r', 'u', 'e']
  | .bool false => ['f', 'a', 'l', 's', 'e']
  | .posInt n => Nat.toDigits 10 n.toNat
  | .negInt n => '-' :: Nat.toDigits 10 n.toInt.natAbs
  | .float _ => ['0', '.', '0']
  | .str s => quoted s
  | .arr [] => ['[', ']']
  | .arr (value :: values) => '[' :: text value ++ textValues values
  | .obj [] => ['{', '}']
  | .obj ((key, value) :: entries) => '{' :: quoted key ++ ':' :: text value ++ textEntries entries

/-- The values after the first one, up to the end of the array. -/
def textValues : List Json → List Char
  | [] => [']']
  | value :: values => ',' :: text value ++ textValues values

def textEntries : List (String × Json) → List Char
  | [] => ['}']
  | (key, value) :: entries => ',' :: quoted key ++ ':' :: text value ++ textEntries entries

end

/-! ## Reading -/

def hexVal (c : Char) : Nat := if c.isDigit = true then c.toNat - 48 else c.toNat - 87

/-- The characters up to the closing quote, and what comes after it. -/
def readString : List Char → Option (List Char × List Char)
  | [] => none
  | c :: rest =>
    if c = '"' then
      some ([], rest)
    else if c = '\\' then
      match rest with
      | 'u' :: _ :: _ :: hi :: lo :: rest =>
        (readString rest).map (Prod.map (Char.ofNat (16 * hexVal hi + hexVal lo) :: ·) id)
      | e :: rest =>
        match (shortEscapes.map Prod.swap).lookup e with
        | some d => (readString rest).map (Prod.map (d :: ·) id)
        | none => none
      | [] => none
    else
      (readString rest).map (Prod.map (c :: ·) id)

def readNat (cs : List Char) : Nat × List Char :=
  (Nat.ofDigitChars 10 (cs.takeWhile Char.isDigit) 0, cs.dropWhile Char.isDigit)

def readQuoted : List Char → Option (String × List Char)
  | '"' :: rest => (readString rest).map (Prod.map String.ofList id)
  | _ => none

/-- A key with its colon. -/
def readKey (cs : List Char) : Option (String × List Char) :=
  match readQuoted cs with
  | some (key, ':' :: rest) => some (key, rest)
  | _ => none

mutual

/-- The value that a text begins with, and what comes after it. -/
def readValue : Nat → List Char → Option (Json × List Char)
  | 0, _ => none
  | fuel + 1, cs =>
    match cs with
    | 'n' :: 'u' :: 'l' :: 'l' :: rest => some (.null, rest)
    | 't' :: 'r' :: 'u' :: 'e' :: rest => some (.bool true, rest)
    | 'f' :: 'a' :: 'l' :: 's' :: 'e' :: rest => some (.bool false, rest)
    | '"' :: _ => (readQuoted cs).map (Prod.map .str id)
    | '[' :: ']' :: rest => some (.arr [], rest)
    | '[' :: rest => do
      let (value, rest) ← readValue fuel rest
      let (values, rest) ← readValues fuel rest
      some (.arr (value :: values), rest)
    | '{' :: '}' :: rest => some (.obj [], rest)
    | '{' :: rest => do
      let (key, rest) ← readKey rest
      let (value, rest) ← readValue fuel rest
      let (entries, rest) ← readEntries fuel rest
      some (.obj ((key, value) :: entries), rest)
    | '-' :: rest =>
      some (.negInt (Int64.ofInt (-(readNat rest).1)), (readNat rest).2)
    | c :: _ =>
      if c.isDigit = true then some (.posInt (UInt64.ofNat (readNat cs).1), (readNat cs).2)
      else none
    | [] => none

def readValues : Nat → List Char → Option (List Json × List Char)
  | 0, _ => none
  | fuel + 1, cs =>
    match cs with
    | ']' :: rest => some ([], rest)
    | ',' :: rest => do
      let (value, rest) ← readValue fuel rest
      let (values, rest) ← readValues fuel rest
      some (value :: values, rest)
    | _ => none

def readEntries : Nat → List Char → Option (List (String × Json) × List Char)
  | 0, _ => none
  | fuel + 1, cs =>
    match cs with
    | '}' :: rest => some ([], rest)
    | ',' :: rest => do
      let (key, rest) ← readKey rest
      let (value, rest) ← readValue fuel rest
      let (entries, rest) ← readEntries fuel rest
      some ((key, value) :: entries, rest)
    | _ => none

end

/-- The value of a whole text. -/
def ofText (cs : List Char) : Option Json :=
  match readValue (cs.length + 1) cs with
  | some (value, []) => some value
  | _ => none

/-! ## Reading what is printed -/

theorem hexVal_digitChar : ∀ d < 16, hexVal (Nat.digitChar d) = d := by decide

theorem lookup_of_mem_shortEscapes : ∀ p ∈ shortEscapes,
    (shortEscapes.map Prod.swap).lookup p.2 = some p.1 ∧ p.2 ≠ 'u' := by
  decide

theorem readString_escape (c : Char) (rest : List Char) :
    readString (escape c ++ rest) = (readString rest).map (Prod.map (c :: ·) id) := by
  unfold escape
  cases hlookup : shortEscapes.lookup c with
  | some e =>
    obtain ⟨before, after, heq, -⟩ := List.lookup_eq_some_iff.mp hlookup
    have hmem : (c, e) ∈ shortEscapes := by
      rw [heq]
      exact List.mem_append_right before (List.mem_cons_self ..)
    obtain ⟨hback, hne⟩ := lookup_of_mem_shortEscapes (c, e) hmem
    show readString ('\\' :: e :: rest) = _
    rw [readString, if_neg (by decide), if_pos rfl, hback]
    exact fun _ _ _ _ _ hu ↦ absurd hu hne
  | none =>
    have hquote : c ≠ '"' := by
      rintro rfl
      exact absurd hlookup (by decide)
    have hslash : c ≠ '\\' := by
      rintro rfl
      exact absurd hlookup (by decide)
    dsimp only
    split
    · next hcontrol =>
      have hc : Char.ofNat (16 * (c.toNat / 16) + c.toNat % 16) = c := by
        rw [Nat.div_add_mod]
        exact Char.ofNat_toNat c
      show readString ('\\' :: 'u' :: '0' :: '0' :: _ :: _ :: rest) = _
      rw [readString, if_neg (by decide), if_pos rfl, hexVal_digitChar _ (by omega),
        hexVal_digitChar _ (by omega), hc]
    · show readString (c :: rest) = _
      rw [readString.eq_def]
      simp only [if_neg hquote, if_neg hslash]

theorem readString_flatMap (cs rest : List Char) :
    readString (cs.flatMap escape ++ '"' :: rest) = some (cs, rest) := by
  induction cs with
  | nil =>
    show readString ('"' :: rest) = _
    rw [readString.eq_def]
    rfl
  | cons c cs ih =>
    rw [List.flatMap_cons, List.append_assoc, readString_escape, ih]
    rfl

theorem readQuoted_quoted (s : String) (rest : List Char) :
    readQuoted (quoted s ++ rest) = some (s, rest) := by
  have htext : quoted s ++ rest = '"' :: (s.toList.flatMap escape ++ '"' :: rest) := by
    simp [quoted]
  rw [htext, readQuoted, readString_flatMap, Option.map_some, Prod.map_apply, String.ofList_toList,
    id]

theorem readKey_quoted (s : String) (rest : List Char) :
    readKey (quoted s ++ ':' :: rest) = some (s, rest) := by
  rw [readKey, readQuoted_quoted]
  rfl

/-- No digit comes first. -/
def Ends (cs : List Char) : Prop := ∀ c ∈ cs.head?, c.isDigit = false

theorem readNat_toDigits (n : Nat) {rest : List Char} (hrest : Ends rest) :
    readNat (Nat.toDigits 10 n ++ rest) = (n, rest) := by
  have hdigits : ∀ c ∈ Nat.toDigits 10 n, c.isDigit = true := fun c hc ↦
    Nat.isDigit_of_mem_toDigits (by decide) (by decide) hc
  have htake : rest.takeWhile Char.isDigit = [] ∧ rest.dropWhile Char.isDigit = rest := by
    cases rest with
    | nil => exact ⟨rfl, rfl⟩
    | cons c cs =>
      have hc := hrest c rfl
      simp [hc]
  rw [readNat, List.takeWhile_append_of_pos hdigits, List.dropWhile_append_of_pos hdigits, htake.1,
    htake.2, List.append_nil, Nat.ofDigitChars_ten_toDigits]

/-- Nested at most so deep, without floats, and with the minus sign where it belongs. -/
def Within : Nat → Json → Prop
  | _, .null | _, .bool _ | _, .posInt _ | _, .str _ => True
  | _, .negInt n => n < 0
  | _, .float _ => False
  | 0, .arr _ | 0, .obj _ => False
  | depth + 1, .arr values => ∀ value ∈ values, Within depth value
  | depth + 1, .obj entries => ∀ p ∈ entries, Within depth p.2

theorem readValue_digit (fuel : Nat) {c : Char} (rest : List Char) (hc : c.isDigit = true) :
    readValue (fuel + 1) (c :: rest) =
      some (.posInt (UInt64.ofNat (readNat (c :: rest)).1), (readNat (c :: rest)).2) := by
  have hne : ∀ {d : Char} {cs : List Char}, c :: rest = d :: cs → d.isDigit = true := by
    intro d cs heq
    rwa [← (List.cons.inj heq).1]
  rw [readValue.eq_def]
  dsimp only
  split
  case h_10 d cs heq => rw [if_pos (hne heq)]
  case h_11 heq => cases heq
  -- the other values begin with no digit
  all_goals next heq => exact absurd (hne heq) (by decide)

theorem readValue_bracket (fuel : Nat) {c : Char} (rest : List Char) (hc : c ≠ ']') :
    readValue (fuel + 1) ('[' :: c :: rest) =
      (readValue fuel (c :: rest)).bind fun p ↦ (readValues fuel p.2).bind fun q ↦
        some (.arr (p.1 :: q.1), q.2) := by
  rw [readValue.eq_def]
  dsimp only
  split
  case h_5 heq => exact absurd (List.cons.inj (List.cons.inj heq).2).1 hc
  case h_6 heq =>
    obtain ⟨-, rfl⟩ := List.cons.inj heq
    rfl
  case h_10 hne _ _ _ heq => exact (hne (List.cons.inj heq).1.symm).elim
  case h_11 heq => cases heq
  all_goals next heq => exact absurd (List.cons.inj heq).1 (by decide)

theorem readValue_brace (fuel : Nat) (s : String) (rest : List Char) :
    readValue (fuel + 1) ('{' :: (quoted s ++ rest)) =
      (readKey (quoted s ++ rest)).bind fun k ↦ (readValue fuel k.2).bind fun p ↦
        (readEntries fuel p.2).bind fun q ↦ some (.obj ((k.1, p.1) :: q.1), q.2) :=
  rfl

/-- A text begins with a character that ends no array. -/
theorem text_head (value : Json) : ∃ c cs, text value = c :: cs ∧ c ≠ ']' := by
  cases value with
  | bool b => cases b <;> exact ⟨_, _, rfl, by decide⟩
  | posInt n =>
    obtain ⟨c, cs, heq⟩ := List.exists_cons_of_ne_nil (Nat.toDigits_ne_nil (b := 10) (n := n.toNat))
    refine ⟨c, cs, heq, ?_⟩
    rintro rfl
    have hdigit : Char.isDigit ']' = true :=
      Nat.isDigit_of_mem_toDigits (b := 10) (n := n.toNat) (by decide) (by decide) (by simp [heq])
    exact absurd hdigit (by decide)
  | arr values => cases values <;> exact ⟨_, _, rfl, by decide⟩
  | obj entries => cases entries <;> exact ⟨_, _, rfl, by decide⟩
  | _ => exact ⟨_, _, rfl, by decide⟩

theorem ends_textValues (values : List Json) (rest : List Char) :
    Ends (textValues values ++ rest) := by
  cases values <;> · rintro c ⟨⟩; decide

theorem ends_textEntries (entries : List (String × Json)) (rest : List Char) :
    Ends (textEntries entries ++ rest) := by
  rcases entries with _ | ⟨⟨key, value⟩, entries⟩ <;> · rintro c ⟨⟩; decide

mutual

theorem readValue_text : ∀ (value : Json) (depth fuel : Nat) (rest : List Char),
    Within depth value → (text value).length ≤ fuel → Ends rest →
    readValue fuel (text value ++ rest) = some (value, rest)
  | _, _, 0, _, _, hfuel, _ => by
    obtain ⟨c, cs, heq, -⟩ := text_head ‹Json›
    rw [heq] at hfuel
    cases hfuel
  | .null, _, fuel + 1, rest, _, _, _ => rfl
  | .bool true, _, fuel + 1, rest, _, _, _ => rfl
  | .bool false, _, fuel + 1, rest, _, _, _ => rfl
  | .posInt n, _, fuel + 1, rest, _, _, hrest => by
    obtain ⟨c, cs, heq, -⟩ := text_head (.posInt n)
    have hc : c.isDigit = true := by
      apply Nat.isDigit_of_mem_toDigits (b := 10) (n := n.toNat) (by decide) (by decide)
      rw [show Nat.toDigits 10 n.toNat = _ from heq]
      exact List.mem_cons_self ..
    have hnat : readNat (c :: (cs ++ rest)) = (n.toNat, rest) := by
      rw [← List.cons_append, ← heq]
      exact readNat_toDigits n.toNat hrest
    rw [heq, List.cons_append, readValue_digit fuel (cs ++ rest) hc, hnat, UInt64.ofNat_toNat]
  | .negInt n, depth, fuel + 1, rest, hwithin, _, hrest => by
    have hneg : n.toInt < 0 := by
      have hlt : n < 0 := by cases depth <;> exact hwithin
      exact Int64.lt_iff_toInt_lt.mp hlt
    have habs : -(n.toInt.natAbs : Int) = n.toInt := by omega
    show some (Json.negInt (Int64.ofInt (-((readNat (Nat.toDigits 10 n.toInt.natAbs ++ rest)).1 :
      Int))), (readNat (Nat.toDigits 10 n.toInt.natAbs ++ rest)).2) = _
    rw [readNat_toDigits _ hrest, habs, Int64.ofInt_toInt]
  | .float _, depth, _, _, hwithin, _, _ => by cases depth <;> cases hwithin
  | .str s, _, fuel + 1, rest, _, _, _ => by
    show (readQuoted (quoted s ++ rest)).map (Prod.map Json.str id) = _
    rw [readQuoted_quoted]
    rfl
  | .arr [], _, fuel + 1, rest, _, _, _ => rfl
  | .arr (_ :: _), 0, _, _, hwithin, _, _ => hwithin.elim
  | .arr (value :: values), depth + 1, fuel + 1, rest, hwithin, hfuel, hrest => by
    have hlen : (text value).length ≤ fuel ∧ (textValues values).length ≤ fuel := by
      simp only [text, List.length_cons, List.length_append] at hfuel
      omega
    have hvalue := readValue_text value depth fuel (textValues values ++ rest)
      (hwithin value (List.mem_cons_self ..)) hlen.1 (ends_textValues values rest)
    have hvalues := readValues_text values depth fuel rest
      (fun v hv ↦ hwithin v (List.mem_cons_of_mem value hv)) hlen.2 hrest
    obtain ⟨c, cs, heq, hc⟩ := text_head value
    have htext : text (.arr (value :: values)) ++ rest =
        '[' :: (text value ++ (textValues values ++ rest)) := by
      simp [text]
    rw [heq, List.cons_append] at hvalue
    rw [htext, heq, List.cons_append, readValue_bracket fuel _ hc, hvalue, Option.bind_some,
      hvalues, Option.bind_some]
  | .obj [], _, fuel + 1, rest, _, _, _ => rfl
  | .obj (_ :: _), 0, _, _, hwithin, _, _ => hwithin.elim
  | .obj ((key, value) :: entries), depth + 1, fuel + 1, rest, hwithin, hfuel, hrest => by
    have hlen : (text value).length ≤ fuel ∧ (textEntries entries).length ≤ fuel := by
      simp only [text, List.length_cons, List.length_append] at hfuel
      omega
    have hvalue := readValue_text value depth fuel (textEntries entries ++ rest)
      (hwithin (key, value) (List.mem_cons_self ..)) hlen.1 (ends_textEntries entries rest)
    have hentries := readEntries_text entries depth fuel rest
      (fun p hp ↦ hwithin p (List.mem_cons_of_mem (key, value) hp)) hlen.2 hrest
    have htext : text (.obj ((key, value) :: entries)) ++ rest =
        '{' :: (quoted key ++ ':' :: (text value ++ (textEntries entries ++ rest))) := by
      simp [text]
    show readValue (fuel + 1) (text (.obj ((key, value) :: entries)) ++ rest) = _
    rw [htext, readValue_brace, readKey_quoted, Option.bind_some, hvalue, Option.bind_some,
      hentries, Option.bind_some]

theorem readValues_text : ∀ (values : List Json) (depth fuel : Nat) (rest : List Char),
    (∀ value ∈ values, Within depth value) → (textValues values).length ≤ fuel → Ends rest →
    readValues fuel (textValues values ++ rest) = some (values, rest)
  | [], _, 0, _, _, hfuel, _ => by cases hfuel
  | _ :: _, _, 0, _, _, hfuel, _ => by cases hfuel
  | [], _, fuel + 1, rest, _, _, _ => rfl
  | value :: values, depth, fuel + 1, rest, hwithin, hfuel, hrest => by
    have hlen : (text value).length ≤ fuel ∧ (textValues values).length ≤ fuel := by
      simp only [textValues, List.length_cons, List.length_append] at hfuel
      omega
    have hvalue := readValue_text value depth fuel (textValues values ++ rest)
      (hwithin value (List.mem_cons_self ..)) hlen.1 (ends_textValues values rest)
    have hvalues := readValues_text values depth fuel rest
      (fun v hv ↦ hwithin v (List.mem_cons_of_mem value hv)) hlen.2 hrest
    have htext : textValues (value :: values) ++ rest =
        ',' :: (text value ++ (textValues values ++ rest)) := by
      simp [textValues]
    rw [htext]
    show (readValue fuel _).bind _ = _
    rw [hvalue, Option.bind_some]
    show (readValues fuel _).bind _ = _
    rw [hvalues]
    rfl

theorem readEntries_text : ∀ (entries : List (String × Json)) (depth fuel : Nat)
    (rest : List Char), (∀ p ∈ entries, Within depth p.2) →
    (textEntries entries).length ≤ fuel → Ends rest →
    readEntries fuel (textEntries entries ++ rest) = some (entries, rest)
  | [], _, 0, _, _, hfuel, _ => by cases hfuel
  | _ :: _, _, 0, _, _, hfuel, _ => by cases hfuel
  | [], _, fuel + 1, rest, _, _, _ => rfl
  | (key, value) :: entries, depth, fuel + 1, rest, hwithin, hfuel, hrest => by
    have hlen : (text value).length ≤ fuel ∧ (textEntries entries).length ≤ fuel := by
      simp only [textEntries, List.length_cons, List.length_append] at hfuel
      omega
    have hvalue := readValue_text value depth fuel (textEntries entries ++ rest)
      (hwithin (key, value) (List.mem_cons_self ..)) hlen.1 (ends_textEntries entries rest)
    have hentries := readEntries_text entries depth fuel rest
      (fun p hp ↦ hwithin p (List.mem_cons_of_mem (key, value) hp)) hlen.2 hrest
    have htext : textEntries ((key, value) :: entries) ++ rest =
        ',' :: (quoted key ++ ':' :: (text value ++ (textEntries entries ++ rest))) := by
      simp [textEntries]
    rw [htext]
    show (readKey _).bind _ = _
    rw [readKey_quoted, Option.bind_some]
    show (readValue fuel _).bind _ = _
    rw [hvalue, Option.bind_some]
    show (readEntries fuel _).bind _ = _
    rw [hentries]
    rfl

end

/-- What is printed is read back. -/
theorem ofText_text {value : Json} {depth : Nat} (hwithin : Within depth value) :
    ofText (text value) = some value := by
  have hread := readValue_text value depth ((text value).length + 1) [] hwithin (by omega) nofun
  rw [List.append_nil] at hread
  rw [ofText, hread]

/-! ## No control characters -/

/-- No character below the blank, such as a line break. -/
def Printable (cs : List Char) : Prop := ∀ c ∈ cs, 0x20 ≤ c.toNat

theorem Printable.cons {c : Char} {cs : List Char} (hc : 0x20 ≤ c.toNat) (h : Printable cs) :
    Printable (c :: cs) := by
  rintro d hd
  rcases List.mem_cons.mp hd with rfl | hd
  · exact hc
  · exact h d hd

theorem Printable.append {cs ds : List Char} (h : Printable cs) (k : Printable ds) :
    Printable (cs ++ ds) := by
  intro c hc
  rcases List.mem_append.mp hc with hc | hc
  · exact h c hc
  · exact k c hc

theorem printable_toDigits (n : Nat) : Printable (Nat.toDigits 10 n) := by
  intro c hc
  have hdigit : c.isDigit = true := Nat.isDigit_of_mem_toDigits (by decide) (by decide) hc
  rw [Char.isDigit, Bool.and_eq_true, decide_eq_true_eq, decide_eq_true_eq] at hdigit
  have hle : 48 ≤ c.toNat := UInt32.le_iff_toNat_le.mp hdigit.1
  omega

theorem printable_escape (c : Char) : Printable (escape c) := by
  unfold escape
  cases hlookup : shortEscapes.lookup c with
  | some e =>
    obtain ⟨before, after, heq, -⟩ := List.lookup_eq_some_iff.mp hlookup
    have hall : ∀ p ∈ shortEscapes, 0x20 ≤ p.2.toNat := by decide
    have he := hall (c, e) (by rw [heq]; exact List.mem_append_right before (List.mem_cons_self ..))
    exact .cons (by decide) (.cons he nofun)
  | none =>
    dsimp only
    split
    · next hcontrol =>
      have hhex : ∀ d < 16, 0x20 ≤ (Nat.digitChar d).toNat := by decide
      have hhi := hhex (c.toNat / 16) (by omega)
      have hlo := hhex (c.toNat % 16) (by omega)
      exact .cons (by decide) (.cons (by decide) (.cons (by decide) (.cons (by decide)
        (.cons hhi (.cons hlo nofun)))))
    · next hplain => exact .cons (by omega) nofun

theorem printable_quoted (s : String) : Printable (quoted s) := by
  have hbody : Printable (s.toList.flatMap escape) := by
    intro c hc
    obtain ⟨d, -, hc⟩ := List.mem_flatMap.mp hc
    exact printable_escape d c hc
  exact .append (.cons (by decide) hbody) (.cons (by decide) nofun)

mutual

theorem printable_text : ∀ value : Json, Printable (text value)
  | .null | .bool true | .bool false | .float _ => by
    simp [Printable, text]
  | .posInt n => printable_toDigits n.toNat
  | .negInt n => .cons (by decide) (printable_toDigits _)
  | .str s => printable_quoted s
  | .arr [] => by
    simp [Printable, text]
  | .arr (value :: values) => by
    rw [text]
    exact .append (.cons (by decide) (printable_text value)) (printable_textValues values)
  | .obj [] => by
    simp [Printable, text]
  | .obj ((key, value) :: entries) => by
    rw [text]
    exact .append (.append (.cons (by decide) (printable_quoted key))
      (.cons (by decide) (printable_text value))) (printable_textEntries entries)

theorem printable_textValues : ∀ values : List Json, Printable (textValues values)
  | [] => .cons (by decide) nofun
  | value :: values => by
    rw [textValues]
    exact .append (.cons (by decide) (printable_text value)) (printable_textValues values)

theorem printable_textEntries : ∀ entries : List (String × Json), Printable (textEntries entries)
  | [] => .cons (by decide) nofun
  | (key, value) :: entries => by
    rw [textEntries]
    exact .append (.append (.cons (by decide) (printable_quoted key))
      (.cons (by decide) (printable_text value))) (printable_textEntries entries)

end

end Json

end Silta
