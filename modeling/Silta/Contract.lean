import Silta.Supervisor

/-!
# The contract

The watch on Claude Code's output for what no longer matches what the supervisor was checked
against: each line that it says, by all the output and the ticks before it.
-/

namespace Silta

open Supervisor (FALLBACK_FATAL)

def TESTED_VERSIONS : List String := ["2.1.281", "2.1.283"]

/-- The other triggers of the checked versions, an outage. -/
def FALLBACK_OUTAGE : List String := ["overloaded", "server_error"]

/-- Times are in milliseconds. -/
structure Contract where
  /-- When the main line first spoke in the turn in progress. -/
  spokeAt : Option Nat
  warnedUsage : Bool
  warnedTurn : Bool
  deriving DecidableEq, Repr

namespace Contract

def default : Contract := ⟨none, false, false⟩

/-! ## The texts -/

def versionText (version : String) : String :=
  "Claude Code " ++ version ++ " was not checked against this supervisor (checked: " ++
    ", ".intercalate TESTED_VERSIONS ++ ")"

def usageText : String :=
  "an assistant line without usage; the context size is unknown and the threshold rotation is blind"

/-- `quoted` is the debug text of the trigger. -/
def fallbackText (quoted : String) : String :=
  "a model_fallback with the trigger " ++ quoted ++
    ", which this supervisor does not know; the turn runs on the fallback model"

def compactedText : String :=
  "Claude Code compacted the conversation on its own; the PreCompact hook did not block it"

def turnText (cap : Nat) : String :=
  "no result line for " ++ toString (cap / 1000) ++
    " s after an assistant line; a very long turn, or the result line has changed"

/-! ## The two calls -/

/-- `rotation` is whether rotation is on. -/
def event (quote : String → String) (rotation : Bool) (c : Contract) (event : Stream.Event)
    (now : Nat) : Contract × Option String :=
  match event with
  | .init _ version =>
    (c, if TESTED_VERSIONS.contains version then none else some (versionText version))
  | .assistant false contextTokens _ =>
    let c := { c with spokeAt := some (c.spokeAt.getD now) }
    if contextTokens.isNone && !c.warnedUsage then
      ({ c with warnedUsage := true }, some usageText)
    else (c, none)
  | .result _ _ => ({ c with spokeAt := none, warnedTurn := false }, none)
  | .modelFallback trigger =>
    (c, if !FALLBACK_FATAL.contains trigger && !FALLBACK_OUTAGE.contains trigger then
      some (fallbackText (quote trigger)) else none)
  | .compacted true => (c, if rotation then some compactedText else none)
  | _ => (c, none)

/-- `now.duration_since` is no less than zero. -/
def tick (cap : Nat) (c : Contract) (now : Nat) : Contract × Option String :=
  match c.spokeAt with
  | none => (c, none)
  | some spokeAt =>
    if c.warnedTurn || now - spokeAt < cap then (c, none)
    else ({ c with warnedTurn := true }, some (turnText cap))

/-- A line of output, or a tick of the supervisor. -/
inductive Call
  | event (event : Stream.Event) (now : Nat)
  | tick (now : Nat)
  deriving DecidableEq, Repr

section Runs

variable (quote : String → String) (rotation : Bool) (cap : Nat)

def call (c : Contract) : Call → Contract × Option String
  | .event event now => c.event quote rotation event now
  | .tick now => c.tick cap now

/-- The contract after these calls. -/
def after (calls : List Call) : Contract :=
  calls.foldl (fun c l ↦ (c.call quote rotation cap l).1) default

/-- What is said at a call, after these calls. -/
def said (before : List Call) (l : Call) : Option String :=
  ((after quote rotation cap before).call quote rotation cap l).2

theorem after_concat (calls : List Call) (l : Call) :
    after quote rotation cap (calls ++ [l]) =
      ((after quote rotation cap calls).call quote rotation cap l).1 := by
  simp [after]

end Runs

/-! ## What a history calls for -/

/-- The main line speaks. -/
def Call.Speaks : Call → Nat → Prop
  | .event (.assistant false _ _) now, t => t = now
  | _, _ => False

/-- The main line speaks without usage. -/
def Call.LacksUsage : Call → Prop
  | .event (.assistant false none _) _ => True
  | _ => False

def Call.EndsTurn : Call → Prop
  | .event (.result _ _) _ => True
  | _ => False

/-- The main line has not spoken in the turn in progress. -/
def Silent (calls : List Call) : Prop :=
  ∀ earlier l later t, calls = earlier ++ l :: later → l.Speaks t → ∃ k ∈ later, k.EndsTurn

/-- In the turn in progress the main line has first spoken at this time. -/
def SpokeAt (calls : List Call) (t : Nat) : Prop :=
  ∃ earlier l later, calls = earlier ++ l :: later ∧ l.Speaks t ∧ (∀ k ∈ later, ¬k.EndsTurn) ∧
    Silent earlier

/-- The turn in progress has taken so long at this time. -/
def Overdue (cap : Nat) (calls : List Call) (now : Nat) : Prop :=
  ∃ t, SpokeAt calls t ∧ cap ≤ now - t

/-- A tick of the turn in progress has found it overdue. -/
def Warned (cap : Nat) (calls : List Call) : Prop :=
  ∃ earlier now later, calls = earlier ++ .tick now :: later ∧ (∀ k ∈ later, ¬k.EndsTurn) ∧
    Overdue cap earlier now

/-- The line that a call is due after these calls. -/
inductive Due (quote : String → String) (rotation : Bool) (cap : Nat) (before : List Call) :
    Call → String → Prop
  | version (sessionId version : String) (now : Nat) (h : version ∉ TESTED_VERSIONS) :
      Due quote rotation cap before (.event (.init sessionId version) now) (versionText version)
  | usage (synthetic : Bool) (now : Nat) (hfirst : ∀ l ∈ before, ¬l.LacksUsage) :
      Due quote rotation cap before (.event (.assistant false none synthetic) now) usageText
  | fallback (trigger : String) (now : Nat) (hfatal : trigger ∉ FALLBACK_FATAL)
      (houtage : trigger ∉ FALLBACK_OUTAGE) :
      Due quote rotation cap before (.event (.modelFallback trigger) now)
        (fallbackText (quote trigger))
  | compacted (now : Nat) (h : rotation = true) :
      Due quote rotation cap before (.event (.compacted true) now) compactedText
  | turn (now : Nat) (hdue : Overdue cap before now) (hfirst : ¬Warned cap before) :
      Due quote rotation cap before (.tick now) (turnText cap)

/-! ## One call more -/

theorem concat_eq_iff {calls earlier later : List Call} {l k : Call} :
    calls ++ [l] = earlier ++ k :: later ↔
      (later = [] ∧ calls = earlier ∧ l = k) ∨
        ∃ rest, later = rest ++ [l] ∧ calls = earlier ++ k :: rest := by
  rcases List.eq_nil_or_concat later with rfl | ⟨rest, last, rfl⟩
  · simp
  · constructor
    · intro heq
      have heq' : calls ++ [l] = (earlier ++ k :: rest) ++ [last] := by simpa using heq
      obtain ⟨hcalls, hlast⟩ := List.append_inj' heq' rfl
      rw [List.singleton_inj] at hlast
      exact .inr ⟨rest, by rw [hlast, List.concat_eq_append], hcalls⟩
    · rintro (⟨hnil, -⟩ | ⟨rest', hlater, rfl⟩)
      · simp at hnil
      · rw [hlater]
        simp

theorem Call.Speaks.not_endsTurn {l : Call} {t : Nat} (h : l.Speaks t) : ¬l.EndsTurn := by
  intro hends
  cases l with
  | tick now => exact h
  | event event now => cases event <;> first | exact hends | exact h

theorem silent_concat {calls : List Call} {l : Call} :
    Silent (calls ++ [l]) ↔ l.EndsTurn ∨ Silent calls ∧ ∀ t, ¬l.Speaks t := by
  constructor
  · intro h
    by_cases hends : l.EndsTurn
    · exact .inl hends
    · refine .inr ⟨fun earlier k later t heq hspeaks ↦ ?_, fun t hspeaks ↦ ?_⟩
      · obtain ⟨e, hmem, he⟩ :=
          h earlier k (later ++ [l]) t (concat_eq_iff.mpr (.inr ⟨later, rfl, heq⟩)) hspeaks
        rcases List.mem_append.mp hmem with hlater | hlast
        · exact ⟨e, hlater, he⟩
        · exact absurd (List.mem_singleton.mp hlast ▸ he) hends
      · obtain ⟨e, hmem, -⟩ := h calls l [] t rfl hspeaks
        cases hmem
  · intro h earlier k later t heq hspeaks
    rcases concat_eq_iff.mp heq with ⟨-, -, rfl⟩ | ⟨rest, rfl, hcalls⟩
    · rcases h with hends | ⟨-, hnot⟩
      · exact absurd hends hspeaks.not_endsTurn
      · exact absurd hspeaks (hnot t)
    · rcases h with hends | ⟨hsilent, -⟩
      · exact ⟨l, by simp, hends⟩
      · obtain ⟨e, hmem, he⟩ := hsilent earlier k rest t hcalls hspeaks
        exact ⟨e, List.mem_append_left _ hmem, he⟩

theorem spokeAt_concat {calls : List Call} {l : Call} {t : Nat} :
    SpokeAt (calls ++ [l]) t ↔
      ¬l.EndsTurn ∧ (SpokeAt calls t ∨ Silent calls ∧ l.Speaks t) := by
  constructor
  · rintro ⟨earlier, k, later, heq, hspeaks, hgoes, hsilent⟩
    rcases concat_eq_iff.mp heq with ⟨-, rfl, rfl⟩ | ⟨rest, rfl, hcalls⟩
    · exact ⟨hspeaks.not_endsTurn, .inr ⟨hsilent, hspeaks⟩⟩
    · refine ⟨hgoes l (by simp), .inl ⟨earlier, k, rest, hcalls, hspeaks, fun e he ↦ ?_, hsilent⟩⟩
      exact hgoes e (List.mem_append_left _ he)
  · rintro ⟨hgoes, ⟨earlier, k, later, rfl, hspeaks, hlater, hsilent⟩ | ⟨hsilent, hspeaks⟩⟩
    · refine ⟨earlier, k, later ++ [l], by simp, hspeaks, fun e he ↦ ?_, hsilent⟩
      rcases List.mem_append.mp he with hold | hlast
      · exact hlater e hold
      · exact List.mem_singleton.mp hlast ▸ hgoes
    · exact ⟨calls, l, [], rfl, hspeaks, nofun, hsilent⟩

theorem warned_concat {cap : Nat} {calls : List Call} {l : Call} :
    Warned cap (calls ++ [l]) ↔
      ¬l.EndsTurn ∧ (Warned cap calls ∨ ∃ now, l = .tick now ∧ Overdue cap calls now) := by
  constructor
  · rintro ⟨earlier, now, later, heq, hgoes, hdue⟩
    rcases concat_eq_iff.mp heq with ⟨-, rfl, rfl⟩ | ⟨rest, rfl, hcalls⟩
    · exact ⟨id, .inr ⟨now, rfl, hdue⟩⟩
    · refine ⟨hgoes l (by simp), .inl ⟨earlier, now, rest, hcalls, fun e he ↦ ?_, hdue⟩⟩
      exact hgoes e (List.mem_append_left _ he)
  · rintro ⟨hgoes, ⟨earlier, now, later, rfl, hlater, hdue⟩ | ⟨now, rfl, hdue⟩⟩
    · refine ⟨earlier, now, later ++ [l], by simp, fun e he ↦ ?_, hdue⟩
      rcases List.mem_append.mp he with hold | hlast
      · exact hlater e hold
      · exact List.mem_singleton.mp hlast ▸ hgoes
    · exact ⟨calls, now, [], rfl, nofun, hdue⟩

/-! ## What the contract keeps -/

/-- The contract is what the history says. -/
structure Tracks (cap : Nat) (calls : List Call) (c : Contract) : Prop where
  silent : c.spokeAt = none ↔ Silent calls
  spoke : ∀ t, c.spokeAt = some t ↔ SpokeAt calls t
  usage : c.warnedUsage = true ↔ ∃ l ∈ calls, l.LacksUsage
  turn : c.warnedTurn = true ↔ Warned cap calls

namespace Tracks

variable {quote : String → String} {rotation : Bool} {cap : Nat} {calls : List Call} {c : Contract}

theorem default : Tracks cap [] .default where
  silent := ⟨fun _ earlier l later t heq ↦ by simp at heq, fun _ ↦ rfl⟩
  spoke t := ⟨nofun, fun ⟨earlier, l, later, heq, _⟩ ↦ by simp at heq⟩
  usage := ⟨nofun, fun ⟨_, hmem, _⟩ ↦ by cases hmem⟩
  turn := ⟨nofun, fun ⟨earlier, now, later, heq, _⟩ ↦ by simp at heq⟩

theorem overdue_iff (h : Tracks cap calls c) (now : Nat) :
    Overdue cap calls now ↔ ∃ t, c.spokeAt = some t ∧ cap ≤ now - t := by
  simp only [Overdue, h.spoke]

/-- A call that is not of the main line, ends no turn and is no tick. -/
theorem other (h : Tracks cap calls c) {l : Call} (hspeaks : ∀ t, ¬l.Speaks t)
    (husage : ¬l.LacksUsage) (hends : ¬l.EndsTurn) (htick : ∀ now, l ≠ .tick now) :
    Tracks cap (calls ++ [l]) c where
  silent := by rw [silent_concat, h.silent]; simp [hends, hspeaks]
  spoke t := by rw [spokeAt_concat, h.spoke]; simp [hends, hspeaks]
  usage := by rw [h.usage]; simp [or_and_right, exists_or, husage]
  turn := by rw [warned_concat, h.turn]; simp [hends, htick]

/-- The main line speaks: the first time in a turn is kept. -/
theorem speaks (h : Tracks cap calls c) {contextTokens : Option Nat} {synthetic : Bool} {now : Nat}
    (warned : Bool) (hwarned : warned = true ↔ c.warnedUsage = true ∨ contextTokens = none) :
    Tracks cap (calls ++ [.event (.assistant false contextTokens synthetic) now])
      { c with spokeAt := some (c.spokeAt.getD now), warnedUsage := warned } where
  silent := by
    rw [silent_concat]
    refine ⟨nofun, ?_⟩
    rintro (hends | ⟨-, hnot⟩)
    · exact hends.elim
    · exact absurd rfl (hnot now)
  spoke t := by
    rw [spokeAt_concat, ← h.spoke, ← h.silent]
    cases hspoke : c.spokeAt with
    | none => exact ⟨fun heq ↦ ⟨id, .inr ⟨rfl, (Option.some.inj heq).symm⟩⟩, fun h ↦ by
        obtain ⟨-, hold | ⟨-, hspeaks⟩⟩ := h
        · cases hold
        · exact congrArg some (Eq.symm hspeaks)⟩
    | some first => simp [Call.EndsTurn]
  usage := by
    rw [hwarned, h.usage]
    cases contextTokens with
    | none => simp [Call.LacksUsage]
    | some n => simp [Call.LacksUsage, or_and_right, exists_or]
  turn := by rw [warned_concat, h.turn]; simp [Call.EndsTurn]

theorem result (h : Tracks cap calls c) (isError person : Bool) (now : Nat) :
    Tracks cap (calls ++ [.event (.result isError person) now])
      { c with spokeAt := none, warnedTurn := false } where
  silent := by rw [silent_concat]; simp [Call.EndsTurn]
  spoke t := by rw [spokeAt_concat]; simp [Call.EndsTurn]
  usage := by rw [h.usage]; simp [Call.LacksUsage, or_and_right, exists_or]
  turn := by rw [warned_concat]; simp [Call.EndsTurn]

theorem tick (h : Tracks cap calls c) (now : Nat) (warned : Bool)
    (hwarned : warned = true ↔ c.warnedTurn = true ∨ Overdue cap calls now) :
    Tracks cap (calls ++ [.tick now]) { c with warnedTurn := warned } where
  silent := by rw [silent_concat, ← h.silent]; simp [Call.EndsTurn, Call.Speaks]
  spoke t := by rw [spokeAt_concat, ← h.spoke]; simp [Call.EndsTurn, Call.Speaks]
  usage := by rw [h.usage]; simp [Call.LacksUsage, or_and_right, exists_or]
  turn := by rw [warned_concat, hwarned, h.turn]; simp [Call.EndsTurn]

theorem call (h : Tracks cap calls c) (l : Call) :
    Tracks cap (calls ++ [l]) (c.call quote rotation cap l).1 := by
  cases l with
  | tick now =>
    have hoverdue := h.overdue_iff now
    show Tracks cap _ (c.tick cap now).1
    unfold Contract.tick
    cases hspoke : c.spokeAt with
    | none =>
      rw [hspoke] at hoverdue
      exact h.tick now c.warnedTurn (by simp [hoverdue])
    | some t =>
      simp only [hspoke, Option.some.injEq, exists_eq_left'] at hoverdue
      dsimp only
      split
      · next hskip =>
        rw [Bool.or_eq_true, decide_eq_true_eq] at hskip
        refine h.tick now c.warnedTurn ⟨.inl, fun hwarned ↦ hwarned.elim id fun hdue ↦ ?_⟩
        exact hskip.resolve_right (Nat.not_lt_of_le (hoverdue.mp hdue))
      · next hskip =>
        rw [Bool.or_eq_true, decide_eq_true_eq, not_or] at hskip
        have hlate := h.tick now true
          ⟨fun _ ↦ .inr (hoverdue.mpr (Nat.le_of_not_lt hskip.2)), fun _ ↦ rfl⟩
        rwa [hspoke] at hlate
  | event event now =>
    cases event with
    | assistant subagent contextTokens synthetic =>
      cases subagent with
      | true => exact h.other (fun _ ↦ id) id id nofun
      | false =>
        show Tracks cap _ (c.event quote rotation (.assistant false contextTokens synthetic) now).1
        unfold Contract.event
        dsimp only
        split
        · next hfirst =>
          rw [Bool.and_eq_true, Option.isNone_iff_eq_none] at hfirst
          exact h.speaks true ⟨fun _ ↦ .inr hfirst.1, fun _ ↦ rfl⟩
        · next hnot =>
          refine h.speaks c.warnedUsage ⟨.inl, fun husage ↦ ?_⟩
          rcases husage with hold | rfl
          · exact hold
          · simpa using hnot
    | result isError person => exact h.result isError person now
    | compacted auto =>
      cases auto <;> exact h.other (fun _ ↦ id) id id nofun
    | _ => exact h.other (fun _ ↦ id) id id nofun

end Tracks

section Runs

variable (quote : String → String) (rotation : Bool) (cap : Nat)

theorem tracks_after (calls : List Call) : Tracks cap calls (after quote rotation cap calls) := by
  induction calls using List.reverseRecOn with
  | nil => exact .default
  | append_singleton calls l ih =>
    rw [after_concat]
    exact ih.call l

theorem tick_eq_some {c : Contract} {now : Nat} {line : String} :
    (c.tick cap now).2 = some line ↔
      turnText cap = line ∧ (∃ t, c.spokeAt = some t ∧ cap ≤ now - t) ∧ ¬c.warnedTurn = true := by
  unfold tick
  cases c.spokeAt with
  | none => simp
  | some t =>
    dsimp only
    split
    · next hskip =>
      rw [Bool.or_eq_true, decide_eq_true_eq] at hskip
      simp only [reduceCtorEq, Option.some.injEq, exists_eq_left', false_iff, not_and, not_not]
      exact fun _ hdue ↦ hskip.resolve_right (Nat.not_lt_of_le hdue)
    · next hskip =>
      rw [Bool.or_eq_true, decide_eq_true_eq, not_or, not_lt] at hskip
      simp [hskip]

theorem assistant_eq_some {c : Contract} {contextTokens : Option Nat} (synthetic : Bool) (now : Nat)
    {line : String} :
    (c.event quote rotation (.assistant false contextTokens synthetic) now).2 = some line ↔
      usageText = line ∧ contextTokens = none ∧ ¬c.warnedUsage = true := by
  unfold event
  dsimp only
  split
  · next h =>
    rw [Bool.and_eq_true, Option.isNone_iff_eq_none, Bool.not_eq_true'] at h
    simp [h]
  · next h =>
    rw [Bool.and_eq_true, Option.isNone_iff_eq_none, Bool.not_eq_true', not_and] at h
    simpa using fun _ ↦ h

/-- What the supervisor says of Claude Code's output, at every line and tick of a run: each line
that the history calls for, and no other. -/
theorem said_iff (before : List Call) (l : Call) (line : String) :
    said quote rotation cap before l = some line ↔ Due quote rotation cap before l line := by
  have htracks := tracks_after quote rotation cap before
  unfold said
  generalize after quote rotation cap before = c at htracks
  have husage : ¬c.warnedUsage = true ↔ ∀ k ∈ before, ¬k.LacksUsage := by
    rw [htracks.usage]
    simp
  constructor
  · intro h
    cases l with
    | tick now =>
      obtain ⟨rfl, hdue, hfirst⟩ := (tick_eq_some cap).mp h
      exact .turn now ((htracks.overdue_iff now).mpr hdue) (mt htracks.turn.mpr hfirst)
    | event event now =>
      cases event with
      | assistant subagent contextTokens synthetic =>
        cases subagent with
        | true => cases h
        | false =>
          obtain ⟨rfl, rfl, hfirst⟩ := (assistant_eq_some quote rotation synthetic now).mp h
          exact .usage synthetic now (husage.mp hfirst)
      | init sessionId version =>
        obtain ⟨hnot, rfl⟩ :
            ¬TESTED_VERSIONS.contains version = true ∧ versionText version = line := by
          simpa [call, Contract.event] using h
        exact .version sessionId version now fun hmem ↦ hnot (List.contains_iff_mem.mpr hmem)
      | modelFallback trigger =>
        obtain ⟨⟨hfatal, houtage⟩, rfl⟩ : (trigger ∉ FALLBACK_FATAL ∧ trigger ∉ FALLBACK_OUTAGE) ∧
            fallbackText (quote trigger) = line := by
          simpa [call, Contract.event] using h
        exact .fallback trigger now hfatal houtage
      | compacted auto =>
        cases auto with
        | false => cases h
        | true =>
          obtain ⟨hrotation, rfl⟩ : rotation = true ∧ compactedText = line := by
            simpa [call, Contract.event] using h
          exact .compacted now hrotation
      | _ => cases h
  · intro h
    cases h with
    | version sessionId version now hnot =>
      exact if_neg fun hmem ↦ hnot (List.contains_iff_mem.mp hmem)
    | usage synthetic now hfirst =>
      exact (assistant_eq_some quote rotation synthetic now).mpr ⟨rfl, rfl, husage.mpr hfirst⟩
    | fallback trigger now hfatal houtage =>
      show (if _ then _ else _) = _
      exact if_pos (by simp [hfatal, houtage])
    | compacted now hrotation => exact if_pos hrotation
    | turn now hdue hfirst =>
      exact (tick_eq_some cap).mpr
        ⟨rfl, (htracks.overdue_iff now).mp hdue, mt htracks.turn.mp hfirst⟩

end Runs

end Contract

end Silta
