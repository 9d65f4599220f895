import Mathlib.Data.List.Induction
import Silta.JsonText

/-!
# Records as JSON objects

How a record is written with derived serialization, and the objects that read the same: with the
fields in their order, or sorted by key as in a parsed value.
-/

namespace Silta

namespace Json

/-- An object with the fields that are not skipped. -/
def record (fields : List (String × Option Json)) : Json :=
  .obj (fields.filterMap fun p ↦ p.2.map (p.1, ·))

def number (n : Nat) : Json := .posInt (UInt64.ofNat n)

/-- `skip_serializing_if = "Not::not"`. -/
def ifTrue (b : Bool) : Option Json := if b = true then some (.bool true) else none

/-- `BTreeMap::insert`. -/
def insertKey (p : String × Json) : List (String × Json) → List (String × Json)
  | [] => [p]
  | q :: entries =>
    if p.1 < q.1 then p :: q :: entries
    else if p.1 = q.1 then p :: entries
    else q :: insertKey p entries

def ofEntries (entries : List (String × Json)) : List (String × Json) :=
  entries.foldl (fun map p ↦ insertKey p map) []

mutual

/-- As a `Value`, whose objects are sorted maps. -/
def sorted : Json → Json
  | .arr values => .arr (sortedValues values)
  | .obj entries => .obj (ofEntries (sortedEntries entries))
  | value => value

def sortedValues : List Json → List Json
  | [] => []
  | value :: values => value.sorted :: sortedValues values

def sortedEntries : List (String × Json) → List (String × Json)
  | [] => []
  | (key, value) :: entries => (key, value.sorted) :: sortedEntries entries

end

/-- An object that reads as these fields. -/
def Holds (value : Json) (fields : List (String × Option Json)) : Prop :=
  ∀ names, value.fields names = some fun name ↦ (fields.lookup name).join

theorem lookup_cons {α : Type} (p : String × α) (entries : List (String × α)) (name : String) :
    (p :: entries).lookup name = if name = p.1 then some p.2 else entries.lookup name := by
  obtain ⟨key, value⟩ := p
  rw [List.lookup_cons]
  by_cases heq : name = key
  · simp [heq]
  · simp [heq, beq_false_of_ne heq]

theorem lookup_cons_of_ne {α : Type} {key name : String} (h : name ≠ key) (value : α)
    (entries : List (String × α)) :
    ((key, value) :: entries).lookup name = entries.lookup name := by
  rw [lookup_cons, if_neg h]

theorem lookup_eq_none {α : Type} {entries : List (String × α)} {name : String}
    (h : name ∉ entries.map Prod.fst) : entries.lookup name = none := by
  rw [List.lookup_eq_none_iff]
  intro p hp
  rw [bne_iff_ne]
  rintro rfl
  exact h (List.mem_map_of_mem hp)

theorem lookup_filterMap {fields : List (String × Option Json)}
    (hkeys : (fields.map Prod.fst).Nodup) (name : String) :
    (fields.filterMap fun p ↦ p.2.map (p.1, ·)).lookup name = (fields.lookup name).join := by
  induction fields with
  | nil => rfl
  | cons p fields ih =>
    obtain ⟨key, value⟩ := p
    obtain ⟨hnot, hkeys⟩ := List.nodup_cons.mp hkeys
    have ih := ih hkeys
    rw [lookup_cons]
    cases value with
    | some value =>
      rw [List.filterMap_cons, Option.map_some, lookup_cons, ih]
      split <;> rfl
    | none =>
      rw [List.filterMap_cons, Option.map_none, ih]
      split
      · next heq =>
        -- the field is skipped, and there is no other of its name
        rw [heq, lookup_eq_none hnot]
        rfl
      · rfl

theorem holds_record {fields : List (String × Option Json)} (hkeys : (fields.map Prod.fst).Nodup) :
    (record fields).Holds fields := by
  intro names
  show some _ = some _
  rw [funext fun name ↦ lookup_filterMap hkeys name]

theorem insertKey_singleton {p q : String × Json} (h : p.1 ≠ q.1) :
    insertKey p [q] = [p, q] ∨ insertKey p [q] = [q, p] := by
  rw [insertKey, if_neg h]
  split
  · exact .inl rfl
  · exact .inr rfl

theorem lookup_insertKey (p : String × Json) (entries : List (String × Json)) (name : String) :
    (insertKey p entries).lookup name =
      if name = p.1 then some p.2 else entries.lookup name := by
  induction entries with
  | nil => rw [insertKey, lookup_cons]
  | cons q entries ih =>
    rw [insertKey]
    split
    · rw [lookup_cons]
    · split
      · next heq => simp only [lookup_cons, ← heq]; split <;> rfl
      · next hne =>
        rw [lookup_cons, lookup_cons, ih]
        -- the keys differ, so the name is one of them at most
        grind

theorem lookup_ofEntries {entries : List (String × Json)} (hkeys : (entries.map Prod.fst).Nodup)
    (name : String) : (ofEntries entries).lookup name = entries.lookup name := by
  induction entries using List.reverseRecOn with
  | nil => rfl
  | append_singleton entries p ih =>
    rw [List.map_append, List.nodup_append] at hkeys
    obtain ⟨hkeys, -, hdiff⟩ := hkeys
    have hfold : ofEntries (entries ++ [p]) = insertKey p (ofEntries entries) :=
      List.foldl_append ..
    rw [hfold, lookup_insertKey, ih hkeys, List.lookup_append]
    by_cases heq : name = p.1
    · have hnone : entries.lookup name = none := by
        apply lookup_eq_none
        rw [heq]
        exact fun hmem ↦ hdiff p.1 hmem p.1 (by simp) rfl
      rw [if_pos heq, hnone, lookup_cons, if_pos heq]
      rfl
    · rw [if_neg heq, lookup_cons, if_neg heq]
      cases entries.lookup name <;> rfl

/-- A value that holds no others, and prints exactly. -/
def isLeaf : Json → Bool
  | .null | .bool _ | .posInt _ | .str _ => true
  | _ => false

@[simp] theorem isLeaf_str (s : String) : (str s).isLeaf = true := rfl

@[simp] theorem isLeaf_bool (b : Bool) : (bool b).isLeaf = true := rfl

@[simp] theorem isLeaf_number (n : Nat) : (number n).isLeaf = true := rfl

theorem isLeaf_ifTrue {b : Bool} {value : Json} (h : ifTrue b = some value) :
    value.isLeaf = true := by
  cases b with
  | true =>
    obtain rfl := Option.some.inj h
    rfl
  | false => cases h

theorem sorted_of_isLeaf {value : Json} (h : value.isLeaf = true) : value.sorted = value := by
  cases value with
  | arr values => cases h
  | obj entries => cases h
  | _ => rfl

theorem sortedEntries_of_isLeaf {entries : List (String × Json)}
    (h : ∀ p ∈ entries, p.2.isLeaf = true) : sortedEntries entries = entries := by
  induction entries with
  | nil => rfl
  | cons p entries ih =>
    obtain ⟨key, value⟩ := p
    rw [sortedEntries, sorted_of_isLeaf (h _ (List.mem_cons_self ..)),
      ih fun q hq ↦ h q (List.mem_cons_of_mem _ hq)]

theorem keys_sublist (fields : List (String × Option Json)) :
    List.Sublist ((fields.filterMap fun p ↦ p.2.map (p.1, ·)).map Prod.fst)
      (fields.map Prod.fst) := by
  induction fields with
  | nil => exact .slnil
  | cons p fields ih =>
    obtain ⟨key, value⟩ := p
    cases value with
    | some value => exact ih.cons_cons key
    | none => exact ih.cons key

theorem holds_sorted_record {fields : List (String × Option Json)}
    (hkeys : (fields.map Prod.fst).Nodup)
    (hleaf : ∀ p ∈ fields, ∀ value ∈ p.2, value.isLeaf = true) :
    (record fields).sorted.Holds fields := by
  have hentries : sortedEntries (fields.filterMap fun p ↦ p.2.map (p.1, ·)) =
      fields.filterMap fun p ↦ p.2.map (p.1, ·) := by
    apply sortedEntries_of_isLeaf
    intro p hp
    obtain ⟨field, hfield, hp⟩ := List.mem_filterMap.mp hp
    obtain ⟨value, hvalue, rfl⟩ := Option.map_eq_some_iff.mp hp
    exact hleaf field hfield value hvalue
  have hsorted : (record fields).sorted =
      .obj (ofEntries (fields.filterMap fun p ↦ p.2.map (p.1, ·))) := by
    rw [record, sorted, hentries]
  have hlookup : ∀ name, (ofEntries (fields.filterMap fun p ↦ p.2.map (p.1, ·))).lookup name =
      (fields.lookup name).join := by
    intro name
    rw [lookup_ofEntries (hkeys.sublist (keys_sublist fields)), lookup_filterMap hkeys]
  intro names
  rw [hsorted]
  show some _ = some _
  rw [funext hlookup]

/-! ## Fields -/

theorem u64_number {n : Nat} (h : n < 2 ^ 64) : u64 (some (number n)) = some n := by
  show some (UInt64.ofNat n).toNat = some n
  rw [UInt64.toNat_ofNat_of_lt' h]

theorem u32_number {n : Nat} (h : n < 2 ^ 32) : u32 (some (number n)) = some n := by
  have hn : (UInt64.ofNat n).toNat = n :=
    UInt64.toNat_ofNat_of_lt' (Nat.lt_trans h (by decide))
  show (if (UInt64.ofNat n).toNat < 2 ^ 32 then some (UInt64.ofNat n).toNat else none) = some n
  rw [hn, if_pos h]

@[simp] theorem string_str (s : String) : string (some (.str s)) = some s := rfl

@[simp] theorem flag_ifTrue (b : Bool) : flag (ifTrue b) = some b := by
  cases b <;> rfl

/-- A mandatory `bool`. -/
def boolean : Option Json → Option Bool
  | some (.bool b) => some b
  | _ => none

@[simp] theorem boolean_bool (b : Bool) : boolean (some (.bool b)) = some b := rfl

theorem optional_map {α : Type} {read : Option Json → Option α} {write : α → Json} {o : Option α}
    (hread : ∀ a ∈ o, read (some (write a)) = some a) (hnull : ∀ a, write a ≠ .null) :
    optional read (o.map write) = some o := by
  cases o with
  | none => rfl
  | some a =>
    show optional read (some (write a)) = _
    unfold optional
    split
    · next h => cases h
    · next h => exact absurd (Option.some.inj h) (hnull a)
    · rw [hread a rfl]
      rfl

@[simp] theorem optional_str (o : Option String) : optional string (o.map .str) = some o :=
  optional_map (fun _ _ ↦ rfl) nofun

theorem optional_u64 {o : Option Nat} (h : ∀ n ∈ o, n < 2 ^ 64) :
    optional u64 (o.map number) = some o :=
  optional_map (fun n hn ↦ u64_number (h n hn)) nofun

theorem optional_u32 {o : Option Nat} (h : ∀ n ∈ o, n < 2 ^ 32) :
    optional u32 (o.map number) = some o :=
  optional_map (fun n hn ↦ u32_number (h n hn)) nofun

/-- A `Vec` of records. -/
def list {α : Type} (read : Json → Option α) : Option Json → Option (List α)
  | some (.arr values) => values.mapM read
  | _ => none

theorem list_map {α : Type} {read : Json → Option α} {write : α → Json} {as : List α}
    (hread : ∀ a ∈ as, read (write a) = some a) :
    list read (some (.arr (as.map write))) = some as := by
  show (as.map write).mapM read = some as
  induction as with
  | nil => rfl
  | cons a as ih =>
    rw [List.map_cons, List.mapM_cons, hread a (List.mem_cons_self ..),
      ih fun b hb ↦ hread b (List.mem_cons_of_mem a hb)]
    rfl

/-- The variant of an enumeration without data: its name, or an object from its name to null. -/
def variant : Option Json → Option String
  | some (.str name) => some name
  | some (.obj [(name, .null)]) => some name
  | _ => none

@[simp] theorem variant_str (name : String) : variant (some (.str name)) = some name := rfl

/-! ## Records -/

/-- The records of a type, within the range of their numbers, are read from any object that has
their fields. -/
structure Reads {α : Type} (inRange : α → Prop) (wire : α → List (String × Option Json))
    (read : Json → Option α) : Prop where
  keys : ∀ a, ((wire a).map Prod.fst).Nodup
  holds : ∀ {a value}, inRange a → value.Holds (wire a) → read value = some a

/-- Records without others in them. -/
structure Flat {α : Type} (inRange : α → Prop) (wire : α → List (String × Option Json))
    (read : Json → Option α) : Prop extends Reads inRange wire read where
  leaf : ∀ a, ∀ p ∈ wire a, ∀ value ∈ p.2, value.isLeaf = true

/-- One field is read, and then the others. -/
theorem bind_of_eq_some {α β : Type} {o : Option α} {a : α} {next : α → Option β} {b : Option β}
    (ho : o = some a) (hnext : next a = b) : o.bind next = b := by
  rw [ho, Option.bind_some, hnext]

section

variable {α : Type} {inRange : α → Prop} {wire : α → List (String × Option Json)}
  {read : Json → Option α} {a : α}

theorem Reads.record (h : Reads inRange wire read) (ha : inRange a) :
    read (record (wire a)) = some a :=
  h.holds ha (holds_record (h.keys a))

theorem Flat.sorted (h : Flat inRange wire read) (ha : inRange a) :
    read (Json.record (wire a)).sorted = some a :=
  h.holds ha (holds_sorted_record (h.keys a) (h.leaf a))

theorem within_of_isLeaf {value : Json} (h : value.isLeaf = true) (depth : Nat) :
    Within depth value := by
  cases value with
  | null | bool b | posInt n | str s => cases depth <;> exact trivial
  | _ => cases h

theorem within_record {depth : Nat} {fields : List (String × Option Json)}
    (h : ∀ p ∈ fields, ∀ value ∈ p.2, Within depth value) :
    Within (depth + 1) (Json.record fields) := by
  intro p hp
  obtain ⟨field, hfield, hp⟩ := List.mem_filterMap.mp hp
  obtain ⟨value, hvalue, rfl⟩ := Option.map_eq_some_iff.mp hp
  exact h field hfield value hvalue

theorem within_record_cons (depth : Nat) (key : String) (value : Option Json)
    (fields : List (String × Option Json)) :
    Within (depth + 1) (Json.record ((key, value) :: fields)) ↔
      (∀ v ∈ value, Within depth v) ∧ Within (depth + 1) (Json.record fields) := by
  cases value with
  | none => exact ⟨fun h ↦ ⟨nofun, h⟩, fun h ↦ h.2⟩
  | some value =>
    have hentries : Json.record ((key, some value) :: fields) =
        .obj ((key, value) :: fields.filterMap fun p ↦ p.2.map (p.1, ·)) := rfl
    rw [hentries]
    show (∀ p ∈ _ :: _, _) ↔ _
    rw [List.forall_mem_cons]
    exact and_congr_left fun _ ↦ ⟨fun h v hv ↦ Option.some.inj hv ▸ h, fun h ↦ h value rfl⟩

@[simp] theorem within_record_nil (depth : Nat) : Within (depth + 1) (Json.record []) :=
  fun _ ↦ nofun

@[simp] theorem within_str (depth : Nat) (s : String) : Within depth (.str s) :=
  within_of_isLeaf rfl depth

@[simp] theorem within_bool (depth : Nat) (b : Bool) : Within depth (.bool b) :=
  within_of_isLeaf rfl depth

@[simp] theorem within_number (depth n : Nat) : Within depth (number n) :=
  within_of_isLeaf rfl depth

theorem within_arr {write : α → Json} (as : List α) {depth : Nat}
    (h : ∀ a ∈ as, (write a).Within depth) : (Json.arr (as.map write)).Within (depth + 1) := by
  intro value hvalue
  obtain ⟨a, ha, rfl⟩ := List.mem_map.mp hvalue
  exact h a ha

theorem within_obj {name : String} {value : Json} {depth : Nat} (h : value.Within depth) :
    (Json.obj [(name, value)]).Within (depth + 1) := by
  intro p hp
  obtain rfl := List.mem_singleton.mp hp
  exact h

theorem Flat.within (h : Flat inRange wire read) (a : α) (depth : Nat) :
    Within (depth + 1) (Json.record (wire a)) :=
  within_record fun p hp value hvalue ↦ within_of_isLeaf (h.leaf a p hp value hvalue) depth

end

end Json

end Silta
