import Mathlib.Data.List.Induction
import Mathlib.Data.List.Nodup
import Mathlib.Logic.Function.Basic
import Silta.Lib.Lts

/-!
# Files that are replaced as a whole

A file that is written under another name and then renamed to its own, or removed, by a process that
can fail or be killed at any point.  What a reader finds is what was there before or what was
written last, and never a part of it.
-/

namespace Replace

/-! ## Registers -/

section Registers

variable {σ ℓ α : Type*} {step : σ → ℓ → σ → Prop}

/-- What is read after some labels is what was read before them, or what one of them can have left
after which none has left anything for sure. -/
def Last (left : ℓ → α → Prop) (sure : ℓ → Prop) (ls : List ℓ) (first last : α) : Prop :=
  last = first ∧ (∀ l ∈ ls, ¬sure l) ∨
    ∃ before l after, ls = before ++ l :: after ∧ left l last ∧ ∀ m ∈ after, ¬sure m

theorem last_run {left : ℓ → α → Prop} {sure P : ℓ → Prop} (read : σ → α)
    (hstep : ∀ s l t, P l → step s l t → read t = read s ∧ ¬sure l ∨ left l (read t)) {s t : σ}
    {ls : List ℓ} (h : Lts.Run step s ls t) (hls : ∀ l ∈ ls, P l) :
    Last left sure ls (read s) (read t) := by
  induction h with
  | nil => exact .inl ⟨rfl, fun l hl ↦ absurd hl List.not_mem_nil⟩
  | @snoc t u ls l hrun hl ih =>
    have hlast := ih fun m hm ↦ hls m (List.mem_append_left _ hm)
    rcases hstep t l u (hls l (by simp)) hl with ⟨hsame, hnot⟩ | hleft
    · -- the label adds nothing to what was left before
      have hnone {ms : List ℓ} (hms : ∀ m ∈ ms, ¬sure m) : ∀ m ∈ ms ++ [l], ¬sure m := by
        intro m hm
        rcases List.mem_append.mp hm with hm | hm
        · exact hms m hm
        · rwa [List.mem_singleton.mp hm]
      rcases hlast with ⟨hfirst, hms⟩ | ⟨before, m, after, rfl, hm, hafter⟩
      · exact .inl ⟨hsame.trans hfirst, hnone hms⟩
      · exact .inr ⟨before, m, after ++ [l], by simp, hsame ▸ hm, hnone hafter⟩
    · exact .inr ⟨ls, l, [], rfl, hleft, fun m hm ↦ absurd hm List.not_mem_nil⟩

end Registers

/-! ## Operations -/

section Operations

variable {N B : Type*}

inductive Op (N B : Type*)
  | write (name : N) (content : B)
  | remove (name : N)

def Op.name : Op N B → N
  | .write name _ => name
  | .remove name => name

def Op.content : Op N B → Option B
  | .write _ content => some content
  | .remove _ => none

@[simp] theorem Op.name_write (name : N) (content : B) : (Op.write name content).name = name := rfl

@[simp] theorem Op.name_remove (name : N) : (Op.remove name : Op N B).name = name := rfl

@[simp] theorem Op.content_write (name : N) (content : B) :
    (Op.write name content).content = some content := rfl

@[simp] theorem Op.content_remove (name : N) : (Op.remove name : Op N B).content = none := rfl

inductive Outcome
  | done
  | failed
  | killed
  deriving DecidableEq, Repr

variable [DecidableEq N] (tmp : N → N)

/-- An operation, with how it ends.  One that fails or is killed before the rename can have left
anything in the temporary file; one that is killed can have come to its end before that. -/
inductive Step (d : N → Option B) : Op N B × Outcome → (N → Option B) → Prop
  | unopened (name : N) (content : B) (o : Outcome) (h : o ≠ .done) :
      Step d (.write name content, o) d
  | unfinished (name : N) (content part : B) (o : Outcome) (h : o ≠ .done) :
      Step d (.write name content, o) (Function.update d (tmp name) (some part))
  | renamed (name : N) (content : B) (o : Outcome) (h : o ≠ .failed) :
      Step d (.write name content, o)
        (Function.update (Function.update d (tmp name) none) name (some content))
  | kept (name : N) (o : Outcome) (h : o ≠ .done) : Step d (.remove name, o) d
  | removed (name : N) (o : Outcome) (h : o ≠ .failed) :
      Step d (.remove name, o) (Function.update d name none)

variable {tmp} {name : N} {d d' : N → Option B}

/-- What an operation makes of a file that is no temporary one. -/
theorem Step.cases_file (htmp : ∀ other, tmp other ≠ name) {op : Op N B} {o : Outcome}
    (h : Step tmp d (op, o) d') :
    d' name = d name ∧ (op.name = name → o ≠ .done) ∨
      op.name = name ∧ o ≠ .failed ∧ d' name = op.content := by
  cases h with
  | unopened _ _ _ h => exact .inl ⟨rfl, fun _ ↦ h⟩
  | unfinished other _ _ _ h => exact .inl ⟨Function.update_of_ne (htmp other).symm .., fun _ ↦ h⟩
  | renamed other content _ h =>
    by_cases heq : name = other
    · subst heq
      exact .inr ⟨rfl, h, Function.update_self ..⟩
    · refine .inl ⟨?_, fun hname ↦ absurd hname.symm heq⟩
      rw [Function.update_of_ne heq, Function.update_of_ne (htmp other).symm]
  | kept _ _ h => exact .inl ⟨rfl, fun _ ↦ h⟩
  | removed other _ h =>
    by_cases heq : name = other
    · subst heq
      exact .inr ⟨rfl, h, Function.update_self ..⟩
    · exact .inl ⟨Function.update_of_ne heq .., fun hname ↦ absurd hname.symm heq⟩

/-- What is done, or killed after its last step, is the operation; anything else leaves the files
that are no temporary ones. -/
theorem Step.done_or_same {op : Op N B} {o : Outcome} (h : Step tmp d (op, o) d') :
    Step tmp d (op, .done) d' ∨ ∀ name, (∀ other, tmp other ≠ name) → d' name = d name := by
  cases h with
  | unopened => exact .inr fun _ _ ↦ rfl
  | unfinished other => exact .inr fun _ htmp ↦ Function.update_of_ne (htmp other).symm ..
  | renamed name content => exact .inl (.renamed name content .done nofun)
  | kept => exact .inr fun _ _ ↦ rfl
  | removed name => exact .inl (.removed name .done nofun)

/-! ## Calls -/

variable {C : Type*} (tmp) (ops : C → List (Op N B))

/-- A call, with the outcomes of the operations that it has come to. -/
def CallStep (d : N → Option B) (label : C × List Outcome) (d' : N → Option B) : Prop :=
  Lts.Run (Step tmp) d ((ops label.1).zip label.2) d'

/-- The call has done what it does with the file. -/
def Done (name : N) (label : C × List Outcome) : Prop :=
  ∃ op, (op, .done) ∈ (ops label.1).zip label.2 ∧ op.name = name

/-- The call has done what it does with the file, or was killed in it. -/
def Begun (name : N) (label : C × List Outcome) : Prop :=
  ∃ op o, (op, o) ∈ (ops label.1).zip label.2 ∧ op.name = name ∧ o ≠ .failed

variable {tmp ops} {α : Type*}

theorem callStep_file (htmp : ∀ other, tmp other ≠ name) {label : C × List Outcome}
    (h : CallStep tmp ops d label d') :
    d' name = d name ∧ ¬Done ops name label ∨
      Begun ops name label ∧ ∃ op ∈ ops label.1, op.name = name ∧ d' name = op.content := by
  have hlast : Last
      (fun (l : Op N B × Outcome) a ↦ l.1.name = name ∧ l.2 ≠ .failed ∧ a = l.1.content)
      (fun l ↦ l.1.name = name ∧ l.2 = .done) ((ops label.1).zip label.2) (d name) (d' name) := by
    apply last_run (P := fun _ ↦ True) (fun d ↦ d name) _ h fun _ _ ↦ trivial
    rintro s ⟨op, o⟩ t - hstep
    rcases hstep.cases_file htmp with ⟨hsame, hnot⟩ | ⟨hname, ho, hcontent⟩
    · exact .inl ⟨hsame, fun hsure ↦ hnot hsure.1 hsure.2⟩
    · exact .inr ⟨hname, ho, hcontent⟩
  rcases hlast with ⟨hsame, hnone⟩ | ⟨before, ⟨op, o⟩, after, heq, ⟨hname, ho, hcontent⟩, -⟩
  · refine .inl ⟨hsame, ?_⟩
    rintro ⟨op, hmem, hname⟩
    exact hnone _ hmem ⟨hname, rfl⟩
  · have hmem : (op, o) ∈ (ops label.1).zip label.2 := by
      rw [heq]
      exact List.mem_append_right before List.mem_cons_self
    exact .inr ⟨⟨op, o, hmem, hname, ho⟩, op, (List.of_mem_zip hmem).1, hname, hcontent⟩

/-- A call whose operations are all done, each with a file of its own. -/
theorem callStep_done (htmp : ∀ other, tmp other ≠ name) {call : C}
    (hnodup : ((ops call).map Op.name).Nodup)
    (h : CallStep tmp ops d (call, (ops call).map fun _ ↦ .done) d') :
    d' name = ((ops call).find? (·.name = name)).elim (d name) Op.content := by
  rcases callStep_file htmp h with ⟨hsame, hnot⟩ | ⟨-, op, hop, hname, hcontent⟩
  · have hnone : (ops call).find? (·.name = name) = none := by
      rw [List.find?_eq_none]
      intro op hop hname
      refine hnot ⟨op, ?_, of_decide_eq_true hname⟩
      rw [List.zip_map_right, List.mem_map]
      exact ⟨(op, op), by simpa [List.zip_eq_zipWith] using hop, rfl⟩
    rw [hnone, hsame]
    rfl
  · obtain ⟨op', hfind⟩ : ∃ op', (ops call).find? (·.name = name) = some op' :=
      Option.isSome_iff_exists.mp (List.find?_isSome.mpr ⟨op, hop, decide_eq_true hname⟩)
    have hname' : op'.name = name := by simpa using List.find?_some hfind
    obtain rfl : op' = op :=
      List.inj_on_of_nodup_map hnodup (List.mem_of_find?_eq_some hfind) hop
        (hname'.trans hname.symm)
    rw [hfind, hcontent]
    rfl

/-- What is read of a file after any calls, each of which can fail or be killed: what was there
before, or what one of them wrote after which no other has come to its end. -/
theorem last_calls (htmp : ∀ other, tmp other ≠ name) (read : Option B → α) {value? : C → Option α}
    {P : C → Prop}
    (hvalue : ∀ call, P call → ∀ op ∈ ops call, op.name = name →
      value? call = some (read op.content))
    {labels : List (C × List Outcome)} (hlabels : ∀ label ∈ labels, P label.1)
    (h : Lts.Run (CallStep tmp ops) d labels d') :
    Last (fun label a ↦ Begun ops name label ∧ value? label.1 = some a) (Done ops name) labels
      (read (d name)) (read (d' name)) := by
  apply last_run (P := fun label ↦ P label.1) (fun d ↦ read (d name)) _ h hlabels
  rintro s label t hP hstep
  rcases callStep_file htmp hstep with ⟨hsame, hnot⟩ | ⟨hbegun, op, hop, hname, hcontent⟩
  · exact .inl ⟨congrArg read hsame, hnot⟩
  · refine .inr ⟨hbegun, ?_⟩
    rw [hvalue label.1 hP op hop hname, hcontent]

end Operations

/-! ## Effects on files -/

section Effects

variable {N B E V : Type*} [DecidableEq N]

/-- The operations one after the other, up to where the process is killed. -/
inductive Cut (tmp : N → N) : (N → Option B) → List (Op N B) → (N → Option B) → Prop
  | before (d : N → Option B) (ops : List (Op N B)) : Cut tmp d ops d
  | within {d d' : N → Option B} {op : Op N B} {ops : List (Op N B)}
      (h : Step tmp d (op, .killed) d') : Cut tmp d (op :: ops) d'
  | next {d t d' : N → Option B} {op : Op N B} {ops : List (Op N B)}
      (h : Step tmp d (op, .done) t) (hrest : Cut tmp t ops d') : Cut tmp d (op :: ops) d'

/-- Effects that have at most one operation each, with what is seen of the files. -/
structure Follows (tmp : N → N) (opsOf : E → List (Op N B)) (see : (N → Option B) → V)
    (apply : V → E → V) (P : E → Prop) : Prop where
  /-- What is seen is not in the temporary files. -/
  files : ∀ d d', (∀ name, (∀ other, tmp other ≠ name) → d' name = d name) → see d' = see d
  one : ∀ e, P e → opsOf e = [] ∧ (∀ v, apply v e = v) ∨
    ∃ op, opsOf e = [op] ∧ ∀ d d', Step tmp d (op, .done) d' → see d' = apply (see d) e

namespace Follows

variable {tmp : N → N} {opsOf : E → List (Op N B)} {see : (N → Option B) → V} {apply : V → E → V}
  {P : E → Prop} {d d' : N → Option B} {es : List E}

theorem done (hfollows : Follows tmp opsOf see apply P) (hes : ∀ e ∈ es, P e)
    (h : Lts.Run (Step tmp) d ((es.flatMap opsOf).map fun op ↦ (op, .done)) d') :
    see d' = es.foldl apply (see d) := by
  induction es using List.reverseRecOn generalizing d' with
  | nil =>
    rw [List.flatMap_nil, List.map_nil] at h
    generalize hnil : ([] : List (Op N B × Outcome)) = ls at h
    cases h with
    | nil => rfl
    | snoc => simp at hnil
  | append_singleton es e ih =>
    have hpast := fun e he ↦ hes e (List.mem_append_left _ he)
    rw [List.flatMap_append, List.flatMap_singleton] at h
    rw [List.foldl_append]
    rcases hfollows.one e (hes e (by simp)) with ⟨hnone, hsame⟩ | ⟨op, hone, hdone⟩
    · rw [hnone, List.append_nil] at h
      exact (ih hpast h).trans (hsame _).symm
    · rw [hone, List.map_append] at h
      obtain ⟨t, hrun, hstep⟩ := h.last
      exact (hdone t d' hstep).trans (congrArg (apply · e) (ih hpast hrun))

/-- A kill leaves what some of the effects, in their order, have made. -/
theorem cut (hfollows : Follows tmp opsOf see apply P) (hes : ∀ e ∈ es, P e)
    (h : Cut tmp d (es.flatMap opsOf) d') :
    ∃ k, see d' = (es.take k).foldl apply (see d) := by
  induction es generalizing d with
  | nil =>
    cases h with
    | before => exact ⟨0, rfl⟩
  | cons e es ih =>
    have hrest := fun e he ↦ hes e (List.mem_cons_of_mem _ he)
    rw [List.flatMap_cons] at h
    rcases hfollows.one e (hes e List.mem_cons_self) with ⟨hnone, hsame⟩ | ⟨op, hone, hdone⟩
    · rw [hnone, List.nil_append] at h
      obtain ⟨k, hk⟩ := ih hrest h
      exact ⟨k + 1, by rw [hk, List.take_succ_cons, List.foldl_cons, hsame]⟩
    · rw [hone, List.singleton_append] at h
      cases h with
      | before => exact ⟨0, rfl⟩
      | within hstep =>
        -- killed in the operation: it has come to its end, or not
        rcases hstep.done_or_same with hend | hsame
        · exact ⟨1, hdone d d' hend⟩
        · exact ⟨0, hfollows.files d d' hsame⟩
      | next hstep hcut =>
        obtain ⟨k, hk⟩ := ih hrest hcut
        exact ⟨k + 1, by rw [hk, List.take_succ_cons, List.foldl_cons, hdone d _ hstep]⟩

end Follows

end Effects

end Replace
