import Mathlib.Data.List.FinRange
import Mathlib.Data.List.Nodup
import Mathlib.Tactic.SplitIfs

/-!
# Index tables

A hash map filled by inserting, for each element of a list in order, the element's position under
each of its keys, where a later insertion overwrites an earlier one.  Positions are `Fin`s, so a
position found in a table always has its element.
-/

namespace Table

variable {α κ ι : Type*} [DecidableEq κ]

/-- `HashMap::insert`: the new value wins. -/
def insert (m : κ → Option ι) (k : κ) (i : ι) : κ → Option ι :=
  fun k' ↦ if k' = k then some i else m k'

@[simp] theorem insert_self (m : κ → Option ι) (k : κ) (i : ι) : insert m k i k = some i := by
  simp [insert]

theorem insert_of_ne {k k' : κ} (m : κ → Option ι) (i : ι) (h : k' ≠ k) :
    insert m k i k' = m k' := by
  simp [insert, h]

/-- One value inserted under several keys. -/
def insertAll (m : κ → Option ι) (ks : List κ) (i : ι) : κ → Option ι :=
  ks.foldl (fun m k ↦ insert m k i) m

theorem insertAll_apply (m : κ → Option ι) (ks : List κ) (i : ι) (k : κ) :
    insertAll m ks i k = if k ∈ ks then some i else m k := by
  induction ks generalizing m with
  | nil => simp [insertAll]
  | cons a ks ih =>
    change insertAll (insert m a i) ks i k = _
    rw [ih]
    by_cases hks : k ∈ ks
    · simp [hks]
    · by_cases ha : k = a
      · subst ha; simp
      · simp [hks, ha, insert_of_ne]

/-- The table of the positions of a list by the keys of its elements. -/
def index (keys : α → List κ) (xs : List α) : κ → Option (Fin xs.length) :=
  (List.finRange xs.length).foldl (fun m i ↦ insertAll m (keys (xs.get i)) i) fun _ ↦ none

private theorem foldl_insertAll_apply (keys : ι → List κ) (is : List ι) (m : κ → Option ι)
    (k : κ) :
    is.foldl (fun m i ↦ insertAll m (keys i) i) m k =
      ((is.reverse.find? fun i ↦ decide (k ∈ keys i)).or (m k)) := by
  induction is generalizing m with
  | nil => simp
  | cons i is ih =>
    rw [List.foldl_cons, ih, insertAll_apply, List.reverse_cons, List.find?_append]
    by_cases hk : k ∈ keys i <;> cases h : is.reverse.find? fun i ↦ decide (k ∈ keys i) <;>
      simp [hk]

/-- A key is found under the last element that carries it. -/
theorem index_apply (keys : α → List κ) (xs : List α) (k : κ) :
    index keys xs k =
      (List.finRange xs.length).reverse.find? fun i ↦ decide (k ∈ keys (xs.get i)) := by
  unfold index
  rw [foldl_insertAll_apply]
  simp

theorem mem_keys_of_index {keys : α → List κ} {xs : List α} {k : κ} {i : Fin xs.length}
    (h : index keys xs k = some i) : k ∈ keys (xs.get i) := by
  rw [index_apply] at h
  simpa using List.find?_some h

theorem index_isSome {keys : α → List κ} {xs : List α} {k : κ} {i : Fin xs.length}
    (h : k ∈ keys (xs.get i)) : (index keys xs k).isSome := by
  rw [index_apply, List.find?_isSome]
  exact ⟨i, by simp, by simpa using h⟩

omit [DecidableEq κ] in
/-- Where no key occurs twice, a key belongs to one position. -/
theorem position_unique {keys : α → List κ} {xs : List α} (hnd : (xs.flatMap keys).Nodup)
    {k : κ} {i j : Fin xs.length} (hi : k ∈ keys (xs.get i)) (hj : k ∈ keys (xs.get j)) :
    i = j := by
  have hdisj := (List.nodup_flatMap.mp hnd).2
  rw [List.pairwise_iff_getElem] at hdisj
  rcases lt_trichotomy i j with hlt | heq | hgt
  · exact absurd hj (hdisj i j i.isLt j.isLt hlt hi)
  · exact heq
  · exact absurd hi (hdisj j i j.isLt i.isLt hgt hj)

/-- Where no key occurs twice, a key is found under the element that carries it. -/
theorem index_eq_some_iff {keys : α → List κ} {xs : List α} (hnd : (xs.flatMap keys).Nodup)
    {k : κ} {i : Fin xs.length} : index keys xs k = some i ↔ k ∈ keys (xs.get i) := by
  refine ⟨mem_keys_of_index, fun h ↦ ?_⟩
  obtain ⟨j, hj⟩ := Option.isSome_iff_exists.mp (index_isSome h)
  rw [hj, position_unique hnd (mem_keys_of_index hj) h]

/-! ## The order of the elements -/

/-- The element that a table finds under a key. -/
def lookup (keys : α → List κ) (xs : List α) (k : κ) : Option α := (index keys xs k).map xs.get

theorem lookup_eq_some_iff {keys : α → List κ} {xs : List α} (hnd : (xs.flatMap keys).Nodup)
    {k : κ} {x : α} : lookup keys xs k = some x ↔ x ∈ xs ∧ k ∈ keys x := by
  unfold lookup
  rw [Option.map_eq_some_iff]
  constructor
  · rintro ⟨i, hi, rfl⟩
    exact ⟨List.get_mem xs i, (index_eq_some_iff hnd).mp hi⟩
  · rintro ⟨hx, hk⟩
    obtain ⟨i, rfl⟩ := List.mem_iff_get.mp hx
    exact ⟨i, (index_eq_some_iff hnd).mpr hk, rfl⟩

/-- The elements of a list in another order, and each of them rewritten. -/
def Reordered (R : α → α → Prop) (xs ys : List α) : Prop :=
  ∃ zs, xs.Perm zs ∧ List.Forall₂ R zs ys

section Reordered

variable {R : α → α → Prop} {xs ys : List α}

omit [DecidableEq κ] in
theorem Reordered.flatMap_perm {f : α → List κ} (h : Reordered R xs ys)
    (hf : ∀ x y, R x y → (f x).Perm (f y)) : (xs.flatMap f).Perm (ys.flatMap f) := by
  obtain ⟨zs, hperm, hall⟩ := h
  refine (hperm.flatMap_right f).trans ?_
  clear hperm
  induction hall with
  | nil => exact .nil
  | cons hxy _ ih =>
    rw [List.flatMap_cons, List.flatMap_cons]
    exact (hf _ _ hxy).append ih

theorem Reordered.exists_right (h : Reordered R xs ys) {x : α} (hx : x ∈ xs) :
    ∃ y ∈ ys, R x y := by
  obtain ⟨zs, hperm, hall⟩ := h
  have hz : x ∈ zs := hperm.subset hx
  clear hperm hx
  induction hall with
  | nil => nomatch hz
  | cons hxy _ ih =>
    rcases List.mem_cons.mp hz with rfl | hz
    · exact ⟨_, List.mem_cons_self, hxy⟩
    · obtain ⟨y, hy, hr⟩ := ih hz
      exact ⟨y, List.mem_cons_of_mem _ hy, hr⟩

theorem Reordered.exists_left (h : Reordered R xs ys) {y : α} (hy : y ∈ ys) :
    ∃ x ∈ xs, R x y := by
  obtain ⟨zs, hperm, hall⟩ := h
  suffices hz : ∃ x ∈ zs, R x y by
    obtain ⟨x, hx, hr⟩ := hz
    exact ⟨x, hperm.symm.subset hx, hr⟩
  clear hperm
  induction hall with
  | nil => nomatch hy
  | cons hxy _ ih =>
    rcases List.mem_cons.mp hy with rfl | hy
    · exact ⟨_, List.mem_cons_self, hxy⟩
    · obtain ⟨x, hx, hr⟩ := ih hy
      exact ⟨x, List.mem_cons_of_mem _ hx, hr⟩

/-- Where no key occurs twice, what a table finds does not depend on the order of the elements. -/
theorem Reordered.lookup {keys : α → List κ} (h : Reordered R xs ys)
    (hkeys : ∀ x y, R x y → (keys x).Perm (keys y)) (hnd : (xs.flatMap keys).Nodup) (k : κ) :
    Option.Rel R (lookup keys xs k) (lookup keys ys k) := by
  have hnd' : (ys.flatMap keys).Nodup := (h.flatMap_perm hkeys).nodup_iff.mp hnd
  cases hx : Table.lookup keys xs k with
  | none =>
    cases hy : Table.lookup keys ys k with
    | none => exact .none
    | some y =>
      obtain ⟨hmem, hk⟩ := (lookup_eq_some_iff hnd').mp hy
      obtain ⟨x, hxs, hr⟩ := h.exists_left hmem
      have hfound := (lookup_eq_some_iff hnd).mpr ⟨hxs, (hkeys x y hr).symm.subset hk⟩
      rw [hx] at hfound
      nomatch hfound
  | some x =>
    obtain ⟨hmem, hk⟩ := (lookup_eq_some_iff hnd).mp hx
    obtain ⟨y, hys, hr⟩ := h.exists_right hmem
    rw [(lookup_eq_some_iff hnd').mpr ⟨hys, (hkeys x y hr).subset hk⟩]
    exact .some hr

end Reordered

/-! ## Keys that are new -/

omit [DecidableEq κ]

/-- The keys of the elements do not repeat, and none of them was seen before. -/
def Fresh (keys : α → List κ) (xs : List α) (seen : List κ) : Prop :=
  (xs.flatMap keys).Nodup ∧ ∀ k ∈ xs.flatMap keys, k ∉ seen

theorem fresh_nil (keys : α → List κ) (seen : List κ) : Fresh keys [] seen :=
  ⟨.nil, nofun⟩

theorem fresh_seen_nil {keys : α → List κ} {xs : List α} :
    Fresh keys xs [] ↔ (xs.flatMap keys).Nodup :=
  ⟨And.left, fun h ↦ ⟨h, fun _ _ ↦ List.not_mem_nil⟩⟩

theorem fresh_congr {keys : α → List κ} {xs : List α} {seen seen' : List κ}
    (h : ∀ k, k ∈ seen ↔ k ∈ seen') : Fresh keys xs seen ↔ Fresh keys xs seen' := by
  unfold Fresh
  simp only [h]

theorem fresh_self {ks seen : List κ} :
    Fresh (fun k ↦ [k]) ks seen ↔ ks.Nodup ∧ ∀ k ∈ ks, k ∉ seen := by
  simp [Fresh]

/-- A loop that checks an element's keys and then has seen them. -/
theorem fresh_cons {keys : α → List κ} {x : α} {xs : List α} {seen : List κ} :
    Fresh keys (x :: xs) seen ↔
      ((keys x).Nodup ∧ ∀ k ∈ keys x, k ∉ seen) ∧ Fresh keys xs (keys x ++ seen) := by
  unfold Fresh
  rw [List.flatMap_cons, List.nodup_append]
  constructor
  · rintro ⟨⟨hx, hxs, hdisjoint⟩, hnew⟩
    refine ⟨⟨hx, fun k hk ↦ hnew k (List.mem_append_left _ hk)⟩, hxs, fun k hk hseen ↦ ?_⟩
    rcases List.mem_append.mp hseen with hkx | hold
    · exact hdisjoint k hkx k hk rfl
    · exact hnew k (List.mem_append_right _ hk) hold
  · rintro ⟨⟨hx, hnew⟩, hxs, hrest⟩
    refine ⟨⟨hx, hxs, ?_⟩, fun k hk ↦ ?_⟩
    · rintro k hkx l hl rfl
      exact hrest k hl (List.mem_append_left _ hkx)
    · rcases List.mem_append.mp hk with hkx | hkxs
      · exact hnew k hkx
      · exact fun hold ↦ hrest k hkxs (List.mem_append_right _ hold)

theorem fresh_singleton {keys : α → List κ} {x : α} {seen : List κ} :
    Fresh keys [x] seen ↔ (keys x).Nodup ∧ ∀ k ∈ keys x, k ∉ seen :=
  fresh_cons.trans (and_iff_left (fresh_nil _ _))

/-! ## Keys and values in a list -/

variable {γ : Type*} [DecidableEq γ]

theorem pairs_lookup_eq_none_iff {l : List (γ × α)} {k : γ} :
    l.lookup k = none ↔ k ∉ l.map Prod.fst := by
  rw [List.lookup_eq_none_iff]
  constructor
  · intro h hmem
    obtain ⟨p, hp, rfl⟩ := List.mem_map.mp hmem
    exact absurd (h p hp) (by simp)
  · intro h p hp
    exact bne_iff_ne.mpr fun heq ↦ h (heq ▸ List.mem_map_of_mem hp)

/-- Where the keys differ, the order does not matter. -/
theorem pairs_lookup_eq_some_iff {l : List (γ × α)} (h : (l.map Prod.fst).Nodup) {k : γ} {x : α} :
    l.lookup k = some x ↔ (k, x) ∈ l := by
  induction l with
  | nil => simp
  | cons p l ih =>
    rw [List.map_cons, List.nodup_cons] at h
    rw [List.lookup_cons, List.mem_cons]
    by_cases hkey : k = p.1
    · rw [beq_iff_eq.mpr hkey]
      dsimp only
      rw [Option.some.injEq]
      constructor
      · intro hval
        exact .inl (Prod.ext hkey hval.symm)
      · intro hmem
        rcases hmem with hhead | htail
        · rw [← hhead]
        · have hthere : k ∈ l.map Prod.fst := List.mem_map.mpr ⟨_, htail, rfl⟩
          exact absurd (hkey ▸ hthere) h.1
    · rw [beq_eq_false_iff_ne.mpr hkey]
      dsimp only
      rw [ih h.2]
      refine (or_iff_right fun hhead ↦ hkey ?_).symm
      rw [← hhead]

end Table
