import Silta.JsonText

/-!
# The end of a JSON text

An object's text ends with its brace, and is read wherever it stands: what comes after it is left.
-/

namespace Silta

namespace Json

/-! ## What comes after -/

theorem map_fst_append {α β : Type} {f : α → β} {more : List Char} {o o' : Option (α × List Char)}
    {p : β × List Char} (h : o.map (Prod.map f id) = some p)
    (ho : ∀ q, o = some q → o' = some (q.1, q.2 ++ more)) :
    o'.map (Prod.map f id) = some (p.1, p.2 ++ more) := by
  obtain ⟨q, hq, rfl⟩ := Option.map_eq_some_iff.mp h
  rw [ho q hq]
  rfl

theorem readString_append (more : List Char) {cs : List Char} {p : List Char × List Char}
    (h : readString cs = some p) : readString (cs ++ more) = some (p.1, p.2 ++ more) := by
  induction cs using readString.induct generalizing p with
  | case1 => cases h
  | case2 tail =>
    rw [readString.eq_def] at h
    rw [List.cons_append, readString.eq_def]
    simp only [if_true] at h ⊢
    rw [← Option.some.inj h]
  | case3 _ _ hi lo tail _ ih => exact map_fst_append h fun q hq ↦ ih hq
  | case4 e tail hu d hd _ ih =>
    have hue : e ≠ 'u' := by
      rintro rfl
      have hnone : (shortEscapes.map Prod.swap).lookup 'u' = none := by decide
      rw [hnone] at hd
      cases hd
    rw [readString, if_neg (by decide), if_pos rfl, hd] at h
    rw [List.cons_append, List.cons_append, readString, if_neg (by decide), if_pos rfl, hd]
    · exact map_fst_append h fun q hq ↦ ih hq
    · exact fun _ _ _ _ _ hu ↦ absurd hu hue
    · exact hu
  | case5 e tail hu hd =>
    rw [readString, if_neg (by decide), if_pos rfl, hd] at h
    · cases h
    · exact hu
  | case6 => cases h
  | case7 c tail hquote hslash ih =>
    rw [readString.eq_def] at h
    rw [List.cons_append, readString.eq_def]
    simp only [if_neg hquote, if_neg hslash] at h ⊢
    exact map_fst_append h fun q hq ↦ ih hq

theorem readQuoted_append (more : List Char) {cs : List Char} {p : String × List Char}
    (h : readQuoted cs = some p) : readQuoted (cs ++ more) = some (p.1, p.2 ++ more) := by
  unfold readQuoted at h
  split at h
  · exact map_fst_append h fun q hq ↦ readString_append more hq
  · cases h

theorem readKey_append (more : List Char) {cs : List Char} {p : String × List Char}
    (h : readKey cs = some p) : readKey (cs ++ more) = some (p.1, p.2 ++ more) := by
  unfold readKey at h
  split at h
  · next key rest hquoted =>
    rw [readKey, readQuoted_append more hquoted, ← Option.some.inj h]
    rfl
  · cases h

theorem readNat_append (more : List Char) {cs : List Char} (h : (readNat cs).2 ≠ []) :
    readNat (cs ++ more) = ((readNat cs).1, (readNat cs).2 ++ more) := by
  have hdrop : cs.dropWhile Char.isDigit ≠ [] := h
  have htake : (cs.takeWhile Char.isDigit).length ≠ cs.length := by
    intro hlen
    have hsplit := congrArg List.length
      (List.takeWhile_append_dropWhile (p := Char.isDigit) (l := cs))
    rw [List.length_append] at hsplit
    exact hdrop (List.length_eq_zero_iff.mp (by omega))
  rw [readNat, List.takeWhile_append, if_neg htake, List.dropWhile_append,
    if_neg (by simpa using hdrop), readNat]

theorem readValue_brace_key (fuel : Nat) {rest : List Char} {k : String × List Char}
    (hk : readKey rest = some k) :
    readValue (fuel + 1) ('{' :: rest) =
      (readValue fuel k.2).bind fun p ↦ (readEntries fuel p.2).bind fun q ↦
        some (.obj ((k.1, p.1) :: q.1), q.2) := by
  cases rest with
  | nil => cases hk
  | cons c rest =>
    have hc : c = '"' := by
      rw [readKey, readQuoted.eq_def] at hk
      split at hk
      · next hquoted =>
        split at hquoted
        · next heq => exact (List.cons.inj heq).1
        · cases hquoted
      · cases hk
    rw [hc] at hk ⊢
    show (readKey _).bind _ = _
    rw [hk]
    rfl

theorem readValue_nil (fuel : Nat) (p : Json × List Char) : readValue fuel [] ≠ some p := by
  cases fuel <;> exact nofun

theorem ne_nil_of_readValues {fuel : Nat} {cs : List Char} {p : List Json × List Char}
    (h : readValues fuel cs = some p) : cs ≠ [] := by
  rintro rfl
  cases fuel <;> cases h

theorem ne_nil_of_readEntries {fuel : Nat} {cs : List Char}
    {p : List (String × Json) × List Char} (h : readEntries fuel cs = some p) : cs ≠ [] := by
  rintro rfl
  cases fuel <;> cases h

/-- Whatever comes after a value is left, unless it is a number that goes on. -/
structure LeavesMore (more : List Char) (extra fuel : Nat) : Prop where
  value : ∀ cs p, readValue fuel cs = some p → (p.2 ≠ [] ∨ ∃ entries, p.1 = .obj entries) →
    readValue (fuel + extra) (cs ++ more) = some (p.1, p.2 ++ more)
  values : ∀ cs p, readValues fuel cs = some p →
    readValues (fuel + extra) (cs ++ more) = some (p.1, p.2 ++ more)
  entries : ∀ cs p, readEntries fuel cs = some p →
    readEntries (fuel + extra) (cs ++ more) = some (p.1, p.2 ++ more)

section

variable {more : List Char} {extra fuel : Nat} {cs : List Char}

theorem readValue_append (ih : LeavesMore more extra fuel) {p : Json × List Char}
    (h : readValue (fuel + 1) cs = some p) (hp : p.2 ≠ [] ∨ ∃ entries, p.1 = .obj entries) :
    readValue (fuel + extra + 1) (cs ++ more) = some (p.1, p.2 ++ more) := by
  rw [readValue.eq_def] at h
  dsimp only at h
  split at h
  case h_4 => exact map_fst_append h fun q hq ↦ readQuoted_append more hq
  case h_6 rest hbracket =>
    obtain ⟨q, hq, h⟩ := Option.bind_eq_some_iff.mp h
    obtain ⟨r, hr, hp⟩ := Option.bind_eq_some_iff.mp h
    cases rest with
    | nil => exact absurd hq (readValue_nil fuel q)
    | cons c rest =>
      have hc : c ≠ ']' := fun heq ↦ hbracket rest (heq ▸ rfl)
      rw [List.cons_append, List.cons_append, readValue_bracket _ _ hc, ← List.cons_append,
        ih.value _ q hq (.inl (ne_nil_of_readValues hr)), Option.bind_some, ih.values _ r hr,
        Option.bind_some, ← Option.some.inj hp]
  case h_8 rest hbrace =>
    obtain ⟨k, hk, h⟩ := Option.bind_eq_some_iff.mp h
    obtain ⟨q, hq, h⟩ := Option.bind_eq_some_iff.mp h
    obtain ⟨r, hr, h⟩ := Option.bind_eq_some_iff.mp h
    rw [List.cons_append, readValue_brace_key _ (readKey_append more hk),
      ih.value _ q hq (.inl (ne_nil_of_readEntries hr)), Option.bind_some, ih.entries _ r hr,
      Option.bind_some, ← Option.some.inj h]
  case h_9 rest =>
    obtain rfl := Option.some.inj h
    have hne : (readNat rest).2 ≠ [] := hp.resolve_right nofun
    show some (Json.negInt (Int64.ofInt (-((readNat (rest ++ more)).1 : Int))),
      (readNat (rest ++ more)).2) = _
    rw [readNat_append more hne]
  case h_10 c rest _ _ _ _ _ _ _ _ _ =>
    split at h
    · next hc =>
      obtain rfl := Option.some.inj h
      have hne : (readNat (c :: rest)).2 ≠ [] := hp.resolve_right nofun
      rw [List.cons_append, readValue_digit _ _ hc, ← List.cons_append, readNat_append more hne]
    · cases h
  case h_11 => cases h
  all_goals
    rw [← Option.some.inj h]
    rfl

theorem readValues_append (ih : LeavesMore more extra fuel) {p : List Json × List Char}
    (h : readValues (fuel + 1) cs = some p) :
    readValues (fuel + extra + 1) (cs ++ more) = some (p.1, p.2 ++ more) := by
  rw [readValues.eq_def] at h
  dsimp only at h
  split at h
  · rw [← Option.some.inj h]
    rfl
  · next rest =>
    obtain ⟨q, hq, h⟩ := Option.bind_eq_some_iff.mp h
    obtain ⟨r, hr, h⟩ := Option.bind_eq_some_iff.mp h
    show (readValue _ (rest ++ more)).bind _ = _
    rw [ih.value _ q hq (.inl (ne_nil_of_readValues hr)), Option.bind_some]
    show (readValues _ (q.2 ++ more)).bind _ = _
    rw [ih.values _ r hr, Option.bind_some, ← Option.some.inj h]
  · cases h

theorem readEntries_append (ih : LeavesMore more extra fuel)
    {p : List (String × Json) × List Char} (h : readEntries (fuel + 1) cs = some p) :
    readEntries (fuel + extra + 1) (cs ++ more) = some (p.1, p.2 ++ more) := by
  rw [readEntries.eq_def] at h
  dsimp only at h
  split at h
  · rw [← Option.some.inj h]
    rfl
  · next rest =>
    obtain ⟨k, hk, h⟩ := Option.bind_eq_some_iff.mp h
    obtain ⟨q, hq, h⟩ := Option.bind_eq_some_iff.mp h
    obtain ⟨r, hr, h⟩ := Option.bind_eq_some_iff.mp h
    show (readKey (rest ++ more)).bind _ = _
    rw [readKey_append more hk, Option.bind_some]
    show (readValue _ (k.2 ++ more)).bind _ = _
    rw [ih.value _ q hq (.inl (ne_nil_of_readEntries hr)), Option.bind_some]
    show (readEntries _ (q.2 ++ more)).bind _ = _
    rw [ih.entries _ r hr, Option.bind_some, ← Option.some.inj h]
  · cases h

end

theorem leavesMore (more : List Char) (extra fuel : Nat) : LeavesMore more extra fuel := by
  induction fuel with
  | zero => exact ⟨nofun, nofun, nofun⟩
  | succ fuel ih =>
    constructor
    · rw [Nat.add_right_comm]
      exact fun cs p h hp ↦ readValue_append ih h hp
    · rw [Nat.add_right_comm]
      exact fun cs p h ↦ readValues_append ih h
    · rw [Nat.add_right_comm]
      exact fun cs p h ↦ readEntries_append ih h

/-- After an object nothing more may come. -/
theorem ofText_append {cs more : List Char} {entries : List (String × Json)}
    (h : ofText cs = some (.obj entries)) (hmore : more ≠ []) : ofText (cs ++ more) = none := by
  unfold ofText at h
  split at h
  · next value hread =>
    have hvalue := Option.some.inj h
    have happend := (leavesMore more more.length (cs.length + 1)).value cs _ hread
      (.inr ⟨entries, hvalue⟩)
    rw [Nat.add_right_comm, ← List.length_append] at happend
    rw [ofText, happend]
    cases more with
    | nil => exact absurd rfl hmore
    | cons c more => rfl
  · cases h

/-! ## What is read -/

theorem map_fst_suffix {α β : Type} {f : α → β} {cs : List Char} {o : Option (α × List Char)}
    {p : β × List Char} (h : o.map (Prod.map f id) = some p) (ho : ∀ q, o = some q → q.2 <:+ cs) :
    p.2 <:+ cs := by
  obtain ⟨q, hq, rfl⟩ := Option.map_eq_some_iff.mp h
  exact ho q hq

theorem readString_suffix {cs : List Char} {p : List Char × List Char}
    (h : readString cs = some p) : p.2 <:+ cs := by
  induction cs using readString.induct generalizing p with
  | case1 => cases h
  | case2 tail =>
    rw [readString.eq_def] at h
    simp only [if_true] at h
    rw [← Option.some.inj h]
    exact List.suffix_cons ..
  | case3 a b hi lo tail _ ih =>
    have htail := map_fst_suffix h fun q hq ↦ ih hq
    exact htail.trans (List.suffix_append ['\\', 'u', a, b, hi, lo] tail)
  | case4 e tail hu d hd _ ih =>
    rw [readString, if_neg (by decide), if_pos rfl, hd] at h
    · have htail := map_fst_suffix h fun q hq ↦ ih hq
      exact htail.trans (List.suffix_append ['\\', e] tail)
    · exact hu
  | case5 e tail hu hd =>
    rw [readString, if_neg (by decide), if_pos rfl, hd] at h
    · cases h
    · exact hu
  | case6 => cases h
  | case7 c tail hquote hslash ih =>
    rw [readString.eq_def] at h
    simp only [if_neg hquote, if_neg hslash] at h
    exact (map_fst_suffix h fun q hq ↦ ih hq).trans (List.suffix_cons c tail)

theorem readQuoted_suffix {cs : List Char} {p : String × List Char} (h : readQuoted cs = some p) :
    p.2 <:+ cs := by
  unfold readQuoted at h
  split at h
  · next rest =>
    exact (map_fst_suffix h fun q hq ↦ readString_suffix hq).trans (List.suffix_cons '"' rest)
  · cases h

theorem readKey_suffix {cs : List Char} {k : String × List Char} (h : readKey cs = some k) :
    k.2 <:+ cs := by
  unfold readKey at h
  split at h
  · next key rest hquoted =>
    rw [← Option.some.inj h]
    exact (List.suffix_cons ':' rest).trans (readQuoted_suffix hquoted)
  · cases h

/-- What is left is an end of what is read, after the brace of an object. -/
structure LeavesEnd (fuel : Nat) : Prop where
  value : ∀ cs p, readValue fuel cs = some p →
    p.2 <:+ cs ∧ ∀ entries, p.1 = .obj entries → '}' :: p.2 <:+ cs
  values : ∀ cs p, readValues fuel cs = some p → p.2 <:+ cs
  entries : ∀ cs p, readEntries fuel cs = some p → '}' :: p.2 <:+ cs

section

variable {fuel : Nat} {cs : List Char}

theorem readValue_suffix (ih : LeavesEnd fuel) {p : Json × List Char}
    (h : readValue (fuel + 1) cs = some p) :
    p.2 <:+ cs ∧ ∀ entries, p.1 = .obj entries → '}' :: p.2 <:+ cs := by
  rw [readValue.eq_def] at h
  dsimp only at h
  split at h
  case h_1 rest =>
    obtain rfl := Option.some.inj h
    exact ⟨List.suffix_append ['n', 'u', 'l', 'l'] rest, nofun⟩
  case h_2 rest =>
    obtain rfl := Option.some.inj h
    exact ⟨List.suffix_append ['t', 'r', 'u', 'e'] rest, nofun⟩
  case h_3 rest =>
    obtain rfl := Option.some.inj h
    exact ⟨List.suffix_append ['f', 'a', 'l', 's', 'e'] rest, nofun⟩
  case h_4 =>
    have hsuffix := map_fst_suffix h fun q hq ↦ readQuoted_suffix hq
    obtain ⟨q, -, rfl⟩ := Option.map_eq_some_iff.mp h
    exact ⟨hsuffix, nofun⟩
  case h_5 rest =>
    obtain rfl := Option.some.inj h
    exact ⟨List.suffix_append ['[', ']'] rest, nofun⟩
  case h_6 rest _ =>
    obtain ⟨q, hq, h⟩ := Option.bind_eq_some_iff.mp h
    obtain ⟨r, hr, h⟩ := Option.bind_eq_some_iff.mp h
    obtain rfl := Option.some.inj h
    have hrest : r.2 <:+ rest := (ih.values _ r hr).trans (ih.value _ q hq).1
    exact ⟨hrest.trans (List.suffix_cons '[' rest), nofun⟩
  case h_7 rest =>
    obtain rfl := Option.some.inj h
    exact ⟨List.suffix_append ['{', '}'] rest, fun _ _ ↦ List.suffix_cons '{' _⟩
  case h_8 rest _ =>
    obtain ⟨k, hk, h⟩ := Option.bind_eq_some_iff.mp h
    obtain ⟨q, hq, h⟩ := Option.bind_eq_some_iff.mp h
    obtain ⟨r, hr, h⟩ := Option.bind_eq_some_iff.mp h
    obtain rfl := Option.some.inj h
    have hrest : '}' :: r.2 <:+ '{' :: rest :=
      (((ih.entries _ r hr).trans (ih.value _ q hq).1).trans (readKey_suffix hk)).trans
        (List.suffix_cons '{' rest)
    exact ⟨(List.suffix_cons '}' r.2).trans hrest, fun _ _ ↦ hrest⟩
  case h_9 rest =>
    obtain rfl := Option.some.inj h
    exact ⟨(List.dropWhile_suffix _).trans (List.suffix_cons '-' rest), nofun⟩
  case h_10 c rest _ _ _ _ _ _ _ _ _ =>
    split at h
    · obtain rfl := Option.some.inj h
      exact ⟨List.dropWhile_suffix _, nofun⟩
    · cases h
  case h_11 => cases h

theorem readValues_suffix (ih : LeavesEnd fuel) {p : List Json × List Char}
    (h : readValues (fuel + 1) cs = some p) : p.2 <:+ cs := by
  rw [readValues.eq_def] at h
  dsimp only at h
  split at h
  · obtain rfl := Option.some.inj h
    exact List.suffix_cons ..
  · next rest =>
    obtain ⟨q, hq, h⟩ := Option.bind_eq_some_iff.mp h
    obtain ⟨r, hr, h⟩ := Option.bind_eq_some_iff.mp h
    obtain rfl := Option.some.inj h
    exact ((ih.values _ r hr).trans (ih.value _ q hq).1).trans (List.suffix_cons ',' rest)
  · cases h

theorem readEntries_suffix (ih : LeavesEnd fuel) {p : List (String × Json) × List Char}
    (h : readEntries (fuel + 1) cs = some p) : '}' :: p.2 <:+ cs := by
  rw [readEntries.eq_def] at h
  dsimp only at h
  split at h
  · obtain rfl := Option.some.inj h
    exact List.suffix_rfl
  · next rest =>
    obtain ⟨k, hk, h⟩ := Option.bind_eq_some_iff.mp h
    obtain ⟨q, hq, h⟩ := Option.bind_eq_some_iff.mp h
    obtain ⟨r, hr, h⟩ := Option.bind_eq_some_iff.mp h
    obtain rfl := Option.some.inj h
    exact (((ih.entries _ r hr).trans (ih.value _ q hq).1).trans (readKey_suffix hk)).trans
      (List.suffix_cons ',' rest)
  · cases h

end

theorem leavesEnd (fuel : Nat) : LeavesEnd fuel := by
  induction fuel with
  | zero => exact ⟨nofun, nofun, nofun⟩
  | succ fuel ih =>
    exact ⟨fun _ _ h ↦ readValue_suffix ih h, fun _ _ h ↦ readValues_suffix ih h,
      fun _ _ h ↦ readEntries_suffix ih h⟩

theorem getLast?_of_ofText {cs : List Char} {entries : List (String × Json)}
    (h : ofText cs = some (.obj entries)) : cs.getLast? = some '}' := by
  unfold ofText at h
  split at h
  · next value hread =>
    obtain ⟨used, hused⟩ := ((leavesEnd _).value cs _ hread).2 entries (Option.some.inj h)
    rw [← hused, List.getLast?_concat]
  · cases h

end Json

end Silta
