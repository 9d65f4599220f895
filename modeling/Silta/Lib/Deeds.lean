import Mathlib.Data.List.Basic
import Mathlib.Data.List.Induction

/-!
# Programs that keep a log

Programs that append what they do to a log, are answered from the log so far, and may fail; triples
over their logs; and logs in which every entry comes after what it requires, or within a stretch
that allows it.
-/

namespace Deeds

variable {A ε α β : Type}

/-- A program that may fail, from the log before it to the log after it, oldest entry first. -/
def Prog (A ε α : Type) := List A → Except ε α × List A

namespace Prog

/-- The answer of a program and the log that it leaves behind. -/
def run (x : Prog A ε α) (log : List A) : Except ε α × List A := x log

def fail (e : ε) : Prog A ε α := fun log ↦ (.error e, log)

instance : Monad (Prog A ε) where
  pure a := fun log ↦ (.ok a, log)
  bind x f := fun log ↦ match x log with
    | (.ok a, log) => f a log
    | (.error e, log) => (.error e, log)

def say (a : A) : Prog A ε Unit := fun log ↦ (.ok (), log ++ [a])

def sayAll (as : List A) : Prog A ε Unit := fun log ↦ (.ok (), log ++ as)

/-- A question that is answered from the log, and noted with its answer. -/
def ask (answer : List A → α) (note : α → A) : Prog A ε α :=
  fun log ↦ (.ok (answer log), log ++ [note (answer log)])

/-- What needs no log. -/
def lift (x : Except ε α) : Prog A ε α := fun log ↦ (x, log)

@[simp] theorem run_pure (a : α) (log : List A) :
    (pure a : Prog A ε α).run log = (.ok a, log) := rfl

@[simp] theorem run_fail (e : ε) (log : List A) :
    (fail e : Prog A ε α).run log = (.error e, log) := rfl

@[simp] theorem run_sayAll (as log : List A) :
    (sayAll as : Prog A ε Unit).run log = (.ok (), log ++ as) := rfl

@[simp] theorem run_ask (answer : List A → α) (note : α → A) (log : List A) :
    (ask answer note : Prog A ε α).run log = (.ok (answer log), log ++ [note (answer log)]) := rfl

theorem run_bind (x : Prog A ε α) (f : α → Prog A ε β) (log : List A) :
    (x >>= f).run log = match x.run log with
      | (.ok a, log) => (f a).run log
      | (.error e, log) => (.error e, log) := rfl

end Prog

/-! ## Triples -/

/-- From every log of `P` the program comes to an answer and a log of `Q`. -/
def Triple (P : List A → Prop) (x : Prog A ε α) (Q : Except ε α → List A → Prop) : Prop :=
  ∀ log, P log → Q (x.run log).1 (x.run log).2

namespace Triple

variable {P P' : List A → Prop} {Q Q' R : Except ε α → List A → Prop}

theorem mono {x : Prog A ε α} (h : Triple P x Q) (hP : ∀ log, P' log → P log)
    (hQ : ∀ r log, Q r log → Q' r log) : Triple P' x Q' :=
  fun log hlog ↦ hQ _ _ (h log (hP log hlog))

theorem pure {a : α} (h : ∀ log, P log → Q (.ok a) log) : Triple P (Pure.pure a) Q := h

theorem fail {e : ε} (h : ∀ log, P log → Q (.error e) log) : Triple P (Prog.fail e) Q := h

theorem say {a : A} {Q : Except ε Unit → List A → Prop}
    (h : ∀ log, P log → Q (.ok ()) (log ++ [a])) : Triple P (Prog.say a) Q := h

theorem sayAll {as : List A} {Q : Except ε Unit → List A → Prop}
    (h : ∀ log, P log → Q (.ok ()) (log ++ as)) : Triple P (Prog.sayAll as) Q := h

theorem ask {answer : List A → α} {note : α → A}
    (h : ∀ log, P log → Q (.ok (answer log)) (log ++ [note (answer log)])) :
    Triple P (Prog.ask answer note) Q := h

/-- A sequence: what the first part comes to with an answer is what the second starts from, and its
failures are those of the whole. -/
theorem bind {x : Prog A ε α} {f : α → Prog A ε β} {Q : Except ε β → List A → Prop}
    (hx : Triple P x R) (hf : ∀ a, Triple (R (.ok a)) (f a) Q)
    (hfail : ∀ e log, R (.error e) log → Q (.error e) log) : Triple P (x >>= f) Q := by
  intro log hlog
  have hmid := hx log hlog
  rw [Prog.run_bind]
  rcases hrun : x.run log with ⟨_ | a, log'⟩
  · rw [hrun] at hmid
    exact hfail _ _ hmid
  · rw [hrun] at hmid
    exact hf a log' hmid

end Triple

/-! ## What entries require -/

/-- Every entry of the log comes after what it requires. -/
def Guarded (requires : A → List A → Prop) (log : List A) : Prop :=
  ∀ before a after, log = before ++ a :: after → requires a before

variable {requires : A → List A → Prop} {log : List A}

@[simp] theorem guarded_nil : Guarded requires ([] : List A) := by
  intro before a after heq
  simp at heq

theorem guarded_concat {a : A} :
    Guarded requires (log ++ [a]) ↔ Guarded requires log ∧ requires a log := by
  constructor
  · intro h
    refine ⟨fun before b after heq ↦ h before b (after ++ [a]) ?_, h log a [] rfl⟩
    rw [heq, List.append_assoc, List.cons_append]
  · rintro ⟨hlog, ha⟩ before b after heq
    rcases List.eq_nil_or_concat after with rfl | ⟨after, c, rfl⟩
    · obtain ⟨rfl, hlast⟩ := List.append_inj' heq rfl
      obtain rfl := List.singleton_inj.mp hlast
      exact ha
    · have heq' : log ++ [a] = (before ++ b :: after) ++ [c] := by simpa using heq
      exact hlog before b after (List.append_inj' heq' rfl).1

/-! ## Stretches

Some entries begin a stretch of the log, and what may follow depends on how it began and on what
came of it so far. -/

section Stretches

variable (begins : A → Bool) (allowed : A → List A → A → Prop)

/-- The last stretch of the log, after the entry that began it. -/
structure Stretch (b : A) (stretch log : List A) : Prop where
  eq : ∃ before, log = before ++ b :: stretch
  begun : begins b = true
  goes : ∀ a ∈ stretch, begins a = false

/-- An entry begins a stretch, or the stretch it falls in allows it. -/
def Required (a : A) (log : List A) : Prop :=
  begins a = true ∨ ∃ b stretch, Stretch begins b stretch log ∧ allowed b stretch a

/-- The log is lawful so far, and `F` holds of the stretch it is in. -/
structure During (b : A) (F : List A → Prop) (log : List A) : Prop where
  lawful : Guarded (Required begins allowed) log
  stretch : ∃ stretch, Stretch begins b stretch log ∧ F stretch

/-- What a program comes to within its stretch: `G` of its answer, or a failure. -/
def Comes (b : A) (G : α → List A → Prop) : Except ε α → List A → Prop
  | .ok a, log => During begins allowed b (G a) log
  | .error _, log => During begins allowed b (fun _ ↦ True) log

/-- Within a stretch of which `F` holds the program does what is allowed, and if it answers, `G`
holds of the stretch then. -/
def Does (b : A) (F : List A → Prop) (x : Prog A ε α) (G : α → List A → Prop) : Prop :=
  Triple (During begins allowed b F) x (Comes begins allowed b G)

/-- What once holds of a stretch goes on to hold of it. -/
def Stable (F : List A → Prop) : Prop := ∀ stretch a, F stretch → F (stretch ++ [a])

/-- It goes on to hold while no other entries come than these. -/
def StableUnder (P : A → Prop) (F : List A → Prop) : Prop :=
  ∀ stretch a, P a → F stretch → F (stretch ++ [a])

end Stretches

section Rules

variable {begins : A → Bool} {allowed : A → List A → A → Prop} {b : A} {F F' : List A → Prop}

theorem Stretch.concat {stretch : List A} {a : A} (h : Stretch begins b stretch log)
    (ha : begins a = false) : Stretch begins b (stretch ++ [a]) (log ++ [a]) := by
  obtain ⟨⟨before, rfl⟩, hb, hgoes⟩ := h
  refine ⟨⟨before, by simp⟩, hb, fun c hc ↦ ?_⟩
  rcases List.mem_append.mp hc with hold | hnew
  · exact hgoes c hold
  · exact List.mem_singleton.mp hnew ▸ ha

theorem stable_mem (a : A) : Stable fun stretch ↦ a ∈ stretch :=
  fun _ _ h ↦ List.mem_append_left _ h

theorem stable_const (P : Prop) : Stable fun _ : List A ↦ P := fun _ _ h ↦ h

theorem Stable.and (hF : Stable F) (hF' : Stable F') :
    Stable fun stretch ↦ F stretch ∧ F' stretch :=
  fun stretch a h ↦ ⟨hF stretch a h.1, hF' stretch a h.2⟩

theorem Stable.under (hF : Stable F) (P : A → Prop) : StableUnder P F :=
  fun stretch a _ h ↦ hF stretch a h

theorem StableUnder.and {P : A → Prop} (hF : StableUnder P F) (hF' : StableUnder P F') :
    StableUnder P fun stretch ↦ F stretch ∧ F' stretch :=
  fun stretch a ha h ↦ ⟨hF stretch a ha h.1, hF' stretch a ha h.2⟩

namespace During

theorem begin (h : Guarded (Required begins allowed) log) (hb : begins b = true) (hF : F []) :
    During begins allowed b F (log ++ [b]) where
  lawful := guarded_concat.mpr ⟨h, .inl hb⟩
  stretch := ⟨[], ⟨⟨log, rfl⟩, hb, by simp⟩, hF⟩

theorem mono (h : During begins allowed b F log) (hF : ∀ stretch, F stretch → F' stretch) :
    During begins allowed b F' log where
  lawful := h.lawful
  stretch := by
    obtain ⟨stretch, hstretch, hfacts⟩ := h.stretch
    exact ⟨stretch, hstretch, hF stretch hfacts⟩

/-- One more entry of the stretch, which allows it. -/
theorem concat {a : A} (h : During begins allowed b F log) (ha : begins a = false)
    (hallowed : ∀ stretch, F stretch → allowed b stretch a)
    (hF : ∀ stretch, F stretch → F' (stretch ++ [a])) :
    During begins allowed b F' (log ++ [a]) := by
  obtain ⟨stretch, hstretch, hfacts⟩ := h.stretch
  refine ⟨guarded_concat.mpr ⟨h.lawful, .inr ⟨b, stretch, hstretch, hallowed _ hfacts⟩⟩, ?_⟩
  exact ⟨_, hstretch.concat ha, hF _ hfacts⟩

/-- Several entries of the stretch, each allowed by what holds all along. -/
theorem concatAll {as : List A} (h : During begins allowed b F log) (hF : Stable F)
    (has : ∀ a ∈ as, begins a = false)
    (hallowed : ∀ a ∈ as, ∀ stretch, F stretch → allowed b stretch a) :
    During begins allowed b F (log ++ as) := by
  induction as using List.reverseRecOn with
  | nil => simpa using h
  | append_singleton as a ih =>
    rw [← List.append_assoc]
    have hpre := ih (fun c hc ↦ has c (List.mem_append_left _ hc))
      fun c hc ↦ hallowed c (List.mem_append_left _ hc)
    exact hpre.concat (has a (by simp)) (hallowed a (by simp)) fun stretch ↦ hF stretch a

end During

namespace Does

variable {G : α → List A → Prop} {H : β → List A → Prop}

theorem pure {a : α} (h : ∀ stretch, F stretch → G a stretch) :
    Does begins allowed b F (Pure.pure a : Prog A ε α) G :=
  Triple.pure fun _ hlog ↦ hlog.mono h

theorem fail {e : ε} {G : α → List A → Prop} :
    Does begins allowed b F (Prog.fail e : Prog A ε α) G :=
  Triple.fail fun _ hlog ↦ hlog.mono fun _ _ ↦ trivial

theorem say {a : A} {G : Unit → List A → Prop} (ha : begins a = false)
    (hallowed : ∀ stretch, F stretch → allowed b stretch a)
    (hG : ∀ stretch, F stretch → G () (stretch ++ [a])) :
    Does begins allowed b F (Prog.say a : Prog A ε Unit) G :=
  Triple.say fun _ hlog ↦ hlog.concat ha hallowed hG

theorem ask {answer : List A → α} {note : α → A} (hnote : ∀ a, begins (note a) = false)
    (hallowed : ∀ a stretch, F stretch → allowed b stretch (note a))
    (hG : ∀ a stretch, F stretch → G a (stretch ++ [note a])) :
    Does begins allowed b F (Prog.ask answer note : Prog A ε α) G :=
  Triple.ask fun _ hlog ↦ hlog.concat (hnote _) (hallowed _) (hG _)

/-- A question, whose answer the stretch shows from then on. -/
theorem askedUnder {answer : List A → α} {note : α → A} {P : A → Prop} (hF : StableUnder P F)
    (hP : ∀ a, P (note a)) (hnote : ∀ a, begins (note a) = false)
    (hallowed : ∀ a stretch, F stretch → allowed b stretch (note a)) :
    Does begins allowed b F (Prog.ask answer note : Prog A ε α)
      fun a stretch ↦ F stretch ∧ note a ∈ stretch :=
  ask hnote hallowed fun a stretch hfacts ↦ ⟨hF stretch (note a) (hP a) hfacts, by simp⟩

theorem asked {answer : List A → α} {note : α → A} (hF : Stable F)
    (hnote : ∀ a, begins (note a) = false)
    (hallowed : ∀ a stretch, F stretch → allowed b stretch (note a)) :
    Does begins allowed b F (Prog.ask answer note : Prog A ε α)
      fun a stretch ↦ F stretch ∧ note a ∈ stretch :=
  askedUnder (hF.under fun _ ↦ True) (fun _ ↦ trivial) hnote hallowed

theorem bind {x : Prog A ε α} {f : α → Prog A ε β} (hx : Does begins allowed b F x G)
    (hf : ∀ a, Does begins allowed b (G a) (f a) H) :
    Does begins allowed b F (x >>= f) H :=
  Triple.bind hx hf fun _ _ hlog ↦ hlog

/-- What needs no log either fails or is known from here on. -/
theorem lift_bind {x : Except ε α} {f : α → Prog A ε β}
    (hf : ∀ a, x = .ok a → Does begins allowed b F (f a) H) :
    Does begins allowed b F (Prog.lift x >>= f) H := by
  cases x with
  | error e => exact fail (e := e)
  | ok a => exact hf a rfl

theorem mono {x : Prog A ε α} {G' : α → List A → Prop} (h : Does begins allowed b F x G)
    (hF : ∀ stretch, F' stretch → F stretch) (hG : ∀ a stretch, G a stretch → G' a stretch) :
    Does begins allowed b F' x G' := by
  refine Triple.mono h (fun _ hlog ↦ hlog.mono hF) fun r log hlog ↦ ?_
  cases r with
  | error e => exact hlog
  | ok a => exact During.mono hlog (hG a)

theorem sayAll {as : List A} (hF : Stable F) (has : ∀ a ∈ as, begins a = false)
    (hallowed : ∀ a ∈ as, ∀ stretch, F stretch → allowed b stretch a) :
    Does begins allowed b F (Prog.sayAll as : Prog A ε Unit) fun _ ↦ F :=
  Triple.sayAll fun _ hlog ↦ hlog.concatAll hF has hallowed

end Does

end Rules

end Deeds
