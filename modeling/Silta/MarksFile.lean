import Silta.Replay

/-!
# The saved marks

`delivered.json` under acknowledgements of several connections at once: each call of `Marks::set`
takes its snapshot under the lock, and writes and renames the one temporary file outside it.
-/

namespace Silta

namespace MarksFile

open Replay (Marks Watermark)

/-- A file of marks on disk. -/
inductive File
  | absent
  | unreadable
  | holds (map : Marks)

/-- What a start makes of the file. -/
def File.load : File → Marks
  | .holds map => map
  | .absent | .unreadable => fun _ ↦ none

/-- Where a call of `set` is that has its snapshot. -/
inductive Call
  | writing (snapshot : Marks)
  | renaming

structure State where
  map : Marks
  /-- `delivered.json.tmp`, which all calls share. -/
  tmp : File
  delivered : File
  /-- The call that the reader of each connection is in, if any. -/
  calls : Nat → Option Call

inductive Label
  | newer (conn : Nat) (roomId : String) (mark : Watermark)
  | lock (conn : Nat) (roomId : String) (mark : Watermark)
  | write (conn : Nat)
  | rename (conn : Nat)
  /-- The write or the rename failed, and the call returns. -/
  | failed (conn : Nat)

/-- A daemon that has loaded its marks, beside whatever an earlier one left of its temporary
file. -/
def State.start (delivered tmp : File) : State := ⟨delivered.load, tmp, delivered, fun _ ↦ none⟩

def State.setCall (s : State) (conn : Nat) (call : Option Call) : State :=
  { s with calls := Function.update s.calls conn call }

inductive Step : State → Label → State → Prop
  | newer (s : State) (conn : Nat) (roomId : String) (mark : Watermark)
      (hidle : s.calls conn = none) (hset : s.map.set roomId mark = none) :
      Step s (.newer conn roomId mark) s
  -- the order of the locked sections is the order of the marks in memory
  | lock (s : State) (conn : Nat) (roomId : String) (mark : Watermark) (map : Marks)
      (hidle : s.calls conn = none) (hset : s.map.set roomId mark = some map) :
      Step s (.lock conn roomId mark) { s.setCall conn (some (.writing map)) with map := map }
  | write (s : State) (conn : Nat) (snapshot : Marks)
      (hcall : s.calls conn = some (.writing snapshot)) :
      Step s (.write conn) { s.setCall conn (some .renaming) with tmp := .holds snapshot }
  /-- The file is whatever stands under the temporary name, also what another call wrote. -/
  | rename (s : State) (conn : Nat) (hcall : s.calls conn = some .renaming)
      (htmp : s.tmp ≠ .absent) :
      Step s (.rename conn) { s.setCall conn none with tmp := .absent, delivered := s.tmp }
  /-- A write that fails may leave any part of itself. -/
  | failedWrite (s : State) (conn : Nat) (snapshot : Marks) (tmp : File)
      (hcall : s.calls conn = some (.writing snapshot)) :
      Step s (.failed conn) { s.setCall conn none with tmp := tmp }
  | failedRename (s : State) (conn : Nat) (hcall : s.calls conn = some .renaming) :
      Step s (.failed conn) (s.setCall conn none)

/-! ## Moments of a run -/

def noteMarks (map : Marks) : Label → Marks
  | .lock _ roomId mark => (map.set roomId mark).getD map
  | _ => map

/-- The marks after the locked sections of a run. -/
def marksAfter (map : Marks) (ls : List Label) : Marks := ls.foldl noteMarks map

/-- Moments of a run, each given by the labels before it. -/
structure Moments where
  now : List Label
  /-- When the last snapshot of each connection was taken. -/
  taken : Nat → List Label
  /-- When the snapshot was taken that was written last. -/
  written : List Label

def Moments.note (m : Moments) (l : Label) : Moments where
  now := m.now ++ [l]
  taken := match l with
    | .lock conn _ _ => Function.update m.taken conn (m.now ++ [l])
    | _ => m.taken
  written := match l with
    | .write conn => m.taken conn
    | _ => m.written

def Moments.after (ls : List Label) : Moments := ls.foldl Moments.note ⟨[], fun _ ↦ [], []⟩

theorem Moments.after_concat (ls : List Label) (l : Label) :
    Moments.after (ls ++ [l]) = (Moments.after ls).note l := by
  simp [Moments.after]

/-- The written snapshots are those of their moments.  Either the one written last stands under the
temporary name with a call still to rename it, or `delivered.json` has it, and no call will find
anything to rename. -/
structure OnDisk (start : Marks) (s : State) (m : Moments) : Prop where
  map : s.map = marksAfter start m.now
  taken : ∀ conn snapshot, s.calls conn = some (.writing snapshot) →
    snapshot = marksAfter start (m.taken conn)
  last : ((∃ conn, s.calls conn = some .renaming) ∧ s.tmp = .holds (marksAfter start m.written)) ∨
    (s.delivered.load = marksAfter start m.written ∧
      ∀ conn, s.calls conn = some .renaming → s.tmp = .absent)

theorem OnDisk.init (delivered tmp : File) :
    OnDisk delivered.load (.start delivered tmp) ⟨[], fun _ ↦ [], []⟩ where
  map := rfl
  taken := fun _ _ ↦ nofun
  last := .inr ⟨rfl, fun _ ↦ nofun⟩

end MarksFile

end Silta
