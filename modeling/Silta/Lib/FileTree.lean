import Mathlib.Algebra.BigOperators.Group.List.Basic
import Mathlib.Data.List.Nodup
import Mathlib.Data.List.Infix
import Silta.Lib.Table

/-!
# File trees with links

A tree of directories, files and links, and the walk of a directory that goes through the links as
if they were directories.  Each link that is passed counts, and a path that passes too many leads
nowhere, so that every walk ends.
-/

namespace FileTree

/-- The names from the root down to a place. -/
abbrev Position := List String

inductive Node (α : Type*)
  | file (content : α)
  | dir (entries : List (String × Node α))
  /-- Leads to the target, after some further links. -/
  | link (further : Nat) (target : Position)
  | other

/-- What a walk does, with the path from where it began. -/
inductive Event (α : Type*)
  /-- The directory at a position is read. -/
  | enter (dir : Position) (path : Position)
  /-- What is no directory is looked at: the file at a position, or what is no file either. -/
  | look (file : Option (Position × α)) (path : Position)
  deriving DecidableEq

variable {α : Type*}

namespace Event

/-- The same event, from one directory above. -/
def under (name : String) : Event α → Event α
  | .enter dir path => .enter dir (name :: path)
  | .look file path => .look file (name :: path)

/-- The directory that is read. -/
def dir? : Event α → Option Position
  | .enter dir _ => some dir
  | .look _ _ => none

/-- The file that is looked at. -/
def file? : Event α → Option Position
  | .enter _ _ => none
  | .look file _ => file.map Prod.fst

/-- The path of the file that is looked at. -/
def path? : Event α → Option Position
  | .enter _ _ => none
  | .look file path => file.map fun _ ↦ path

theorem dir?_under (name : String) (e : Event α) : (e.under name).dir? = e.dir? := by
  cases e <;> rfl

theorem file?_under (name : String) (e : Event α) : (e.under name).file? = e.file? := by
  cases e <;> rfl

theorem path?_under (name : String) (e : Event α) :
    (e.under name).path? = e.path?.map (name :: ·) := by
  cases e with
  | enter dir path => rfl
  | look file path => cases file <;> rfl

end Event

/-! ## Walking -/

mutual

/-- The walk of a node at a position, where `follow` walks on through a link. -/
def Node.walk (follow : Nat → Position → List (Event α)) (pos : Position) :
    Node α → List (Event α)
  | .file content => [.look (some (pos, content)) []]
  | .dir entries => .enter pos [] :: walkEntries follow pos entries
  | .link further target => follow further target
  | .other => [.look none []]

def walkEntries (follow : Nat → Position → List (Event α)) (pos : Position) :
    List (String × Node α) → List (Event α)
  | [] => []
  | (name, node) :: rest =>
    (node.walk follow (pos ++ [name])).map (Event.under name) ++ walkEntries follow pos rest

end

mutual

/-- The names in each directory differ. -/
def Node.Distinct : Node α → Prop
  | .dir entries => (entries.map Prod.fst).Nodup ∧ DistinctEntries entries
  | _ => True

def DistinctEntries : List (String × Node α) → Prop
  | [] => True
  | (_, node) :: rest => node.Distinct ∧ DistinctEntries rest

end

/-- What stands at a path below a node.  No link is followed. -/
def Node.find : Node α → Position → Option (Node α)
  | node, [] => some node
  | .dir entries, name :: rest => (entries.lookup name).bind (·.find rest)
  | _, _ :: _ => none

/-- Everything that can be reached, from its root on. -/
structure FileSystem (α : Type*) where
  root : Node α
  distinct : root.Distinct

namespace FileSystem

/-- The walk through a link, with `further` links behind it, where at most `links` may be passed. -/
def follow (fs : FileSystem α) : (links further : Nat) → Position → List (Event α)
  | 0, _, _ => [.look none []]
  -- the link leads to a link, which counts as well
  | links + 1, further + 1, target => fs.follow links further target
  | links + 1, 0, target =>
    match fs.root.find target with
    | some node => node.walk (fs.follow links) target
    | none => [.look none []]

/-- The walk of what stands at a position. -/
def walk (fs : FileSystem α) (links : Nat) (pos : Position) : List (Event α) :=
  match fs.root.find pos with
  | some node => node.walk (fs.follow links) pos
  | none => [.look none []]

/-- Links lead from below one position to another, `links` of them at most. -/
inductive Leads (fs : FileSystem α) : Nat → Position → Position → Prop
  | link {links further : Nat} {pos path target : Position}
      (h : fs.root.find (pos ++ path) = some (.link further target)) (hfew : further < links) :
      Leads fs links pos target
  | links {links further : Nat} {pos path next target : Position}
      (h : fs.root.find (pos ++ path) = some (.link further next)) (hfew : further < links)
      (hrest : Leads fs (links - (further + 1)) next target) : Leads fs links pos target

def IsFile (fs : FileSystem α) (pos : Position) : Prop :=
  ∃ content, fs.root.find pos = some (.file content)

def IsDir (fs : FileSystem α) (pos : Position) : Prop :=
  ∃ entries, fs.root.find pos = some (.dir entries)

end FileSystem

/-! ## What stands below a node -/

@[simp] theorem Node.find_nil (node : Node α) : node.find [] = some node := by
  cases node <;> rfl

@[simp] theorem Node.find_dir (entries : List (String × Node α)) (name : String)
    (path : Position) :
    (Node.dir entries).find (name :: path) = (entries.lookup name).bind (·.find path) := rfl

theorem Node.find_append (node : Node α) (p q : Position) :
    node.find (p ++ q) = (node.find p).bind (·.find q) := by
  induction p generalizing node with
  | nil => simp
  | cons name p ih =>
    cases node with
    | dir entries =>
      rw [List.cons_append, Node.find_dir, Node.find_dir, Option.bind_assoc]
      congr 1
      funext node
      exact ih node
    | _ => rfl

theorem distinctEntries_iff (entries : List (String × Node α)) :
    DistinctEntries entries ↔ ∀ e ∈ entries, e.2.Distinct := by
  induction entries with
  | nil => simp [DistinctEntries]
  | cons e entries ih => rw [DistinctEntries, ih, List.forall_mem_cons]

theorem Node.Distinct.find {node below : Node α} (h : node.Distinct) {path : Position}
    (hfind : node.find path = some below) : below.Distinct := by
  induction path generalizing node with
  | nil =>
    rw [Node.find_nil] at hfind
    exact Option.some.inj hfind ▸ h
  | cons name path ih =>
    cases node with
    | dir entries =>
      rw [Node.find_dir, Option.bind_eq_some_iff] at hfind
      obtain ⟨next, hlookup, hnext⟩ := hfind
      have hmem := (Table.pairs_lookup_eq_some_iff h.1).mp hlookup
      exact ih ((distinctEntries_iff entries).mp h.2 _ hmem) hnext
    | _ => nomatch hfind

mutual

/-- Everything that stands below a node, with its position. -/
def Node.nodes (pos : Position) : Node α → List (Position × Node α)
  | .file content => [(pos, .file content)]
  | .dir entries => (pos, .dir entries) :: nodesEntries pos entries
  | .link further target => [(pos, .link further target)]
  | .other => [(pos, .other)]

def nodesEntries (pos : Position) : List (String × Node α) → List (Position × Node α)
  | [] => []
  | (name, node) :: rest => node.nodes (pos ++ [name]) ++ nodesEntries pos rest

end

theorem nodesEntries_eq (pos : Position) (entries : List (String × Node α)) :
    nodesEntries pos entries = entries.flatMap fun e ↦ e.2.nodes (pos ++ [e.1]) := by
  induction entries with
  | nil => rfl
  | cons e entries ih => rw [nodesEntries, ih, List.flatMap_cons]

theorem walkEntries_eq (follow : Nat → Position → List (Event α)) (pos : Position)
    (entries : List (String × Node α)) :
    walkEntries follow pos entries =
      entries.flatMap fun e ↦ (e.2.walk follow (pos ++ [e.1])).map (Event.under e.1) := by
  induction entries with
  | nil => rfl
  | cons e entries ih => rw [walkEntries, ih, List.flatMap_cons]

mutual

/-- A directory has what each of its entries has. -/
@[elab_as_elim] theorem Node.treeInduction {motive : Node α → Prop}
    (file : ∀ content, motive (.file content))
    (dir : ∀ entries, (∀ e ∈ entries, motive e.2) → motive (.dir entries))
    (link : ∀ further target, motive (.link further target)) (other : motive .other) :
    ∀ node : Node α, motive node
  | .file content => file content
  | .dir entries => dir entries (treeInductionEntries file dir link other entries)
  | .link further target => link further target
  | .other => other

theorem treeInductionEntries {motive : Node α → Prop} (file : ∀ content, motive (.file content))
    (dir : ∀ entries, (∀ e ∈ entries, motive e.2) → motive (.dir entries))
    (link : ∀ further target, motive (.link further target)) (other : motive .other) :
    ∀ entries : List (String × Node α), ∀ e ∈ entries, motive e.2
  | [], _, h => absurd h List.not_mem_nil
  | (_, node) :: entries, e, h => by
    rcases List.mem_cons.mp h with hhead | htail
    · rw [hhead]
      exact Node.treeInduction file dir link other node
    · exact treeInductionEntries file dir link other entries e htail

end

/-- Nothing stands below what is no directory. -/
theorem mem_leaf_iff {leaf below : Node α} {pos p : Position}
    (h : ∀ name path, leaf.find (name :: path) = none) :
    (p, below) ∈ [(pos, leaf)] ↔ ∃ path, p = pos ++ path ∧ leaf.find path = some below := by
  rw [List.mem_singleton, Prod.mk.injEq]
  constructor
  · intro hself
    exact ⟨[], by rw [List.append_nil, hself.1], by rw [Node.find_nil, hself.2]⟩
  · intro hbelow
    obtain ⟨path, hpath, hfind⟩ := hbelow
    cases path with
    | nil =>
      rw [Node.find_nil, Option.some.injEq] at hfind
      exact ⟨by rw [hpath, List.append_nil], hfind.symm⟩
    | cons name path => exact absurd hfind (by rw [h]; nofun)

theorem Node.mem_nodes_iff {node : Node α} (h : node.Distinct) {pos p : Position}
    {below : Node α} :
    (p, below) ∈ node.nodes pos ↔ ∃ path, p = pos ++ path ∧ node.find path = some below := by
  induction node using Node.treeInduction generalizing pos with
  | file content => exact mem_leaf_iff fun _ _ ↦ rfl
  | link further target => exact mem_leaf_iff fun _ _ ↦ rfl
  | other => exact mem_leaf_iff fun _ _ ↦ rfl
  | dir entries ih =>
    have hentry := (distinctEntries_iff entries).mp h.2
    rw [Node.nodes, nodesEntries_eq, List.mem_cons, List.mem_flatMap]
    constructor
    · intro hmem
      rcases hmem with hself | ⟨e, he, hbelow⟩
      · rw [Prod.mk.injEq] at hself
        exact ⟨[], by rw [List.append_nil, hself.1], by rw [Node.find_nil, hself.2]⟩
      · obtain ⟨path, hpath, hfind⟩ := (ih e he (hentry e he)).mp hbelow
        have hlookup : entries.lookup e.1 = some e.2 :=
          (Table.pairs_lookup_eq_some_iff h.1).mpr he
        refine ⟨e.1 :: path, by simpa using hpath, ?_⟩
        rw [Node.find_dir, hlookup, Option.bind_some, hfind]
    · intro hbelow
      obtain ⟨path, hpath, hfind⟩ := hbelow
      cases path with
      | nil =>
        rw [Node.find_nil, Option.some.injEq] at hfind
        exact .inl (by rw [hpath, List.append_nil, hfind])
      | cons name path =>
        rw [Node.find_dir, Option.bind_eq_some_iff] at hfind
        obtain ⟨next, hlookup, hnext⟩ := hfind
        have hmem := (Table.pairs_lookup_eq_some_iff h.1).mp hlookup
        refine .inr ⟨_, hmem, (ih _ hmem (hentry _ hmem)).mpr ?_⟩
        exact ⟨path, by simpa using hpath, hnext⟩

/-- No two of them stand at one position. -/
theorem Node.nodup_nodes {node : Node α} (h : node.Distinct) (pos : Position) :
    ((node.nodes pos).map Prod.fst).Nodup := by
  induction node using Node.treeInduction generalizing pos with
  | file content => exact List.nodup_singleton pos
  | link further target => exact List.nodup_singleton pos
  | other => exact List.nodup_singleton pos
  | dir entries ih =>
    have hentry := (distinctEntries_iff entries).mp h.2
    rw [Node.nodes, nodesEntries_eq, List.map_cons, List.nodup_cons, List.map_flatMap]
    -- what is below an entry is at a position that goes on with its name
    have hpos : ∀ e ∈ entries, ∀ p ∈ (e.2.nodes (pos ++ [e.1])).map Prod.fst,
        ∃ path, p = pos ++ e.1 :: path := by
      intro e he p hp
      obtain ⟨⟨q, below⟩, hbelow, rfl⟩ := List.mem_map.mp hp
      obtain ⟨path, hpath, -⟩ := (Node.mem_nodes_iff (hentry e he)).mp hbelow
      exact ⟨path, by simpa using hpath⟩
    constructor
    · intro hmem
      obtain ⟨e, he, hp⟩ := List.mem_flatMap.mp hmem
      obtain ⟨path, hpath⟩ := hpos e he pos hp
      simp at hpath
    · rw [List.nodup_flatMap]
      refine ⟨fun e he ↦ ih e he (hentry e he) _, ?_⟩
      refine (List.pairwise_map.mp h.1).imp_of_mem fun {e f} he hf hne ↦ ?_
      intro p hp hq
      obtain ⟨path, hpath⟩ := hpos e he p hp
      obtain ⟨path', hpath'⟩ := hpos f hf p hq
      rw [hpath, List.append_cancel_left_eq, List.cons.injEq] at hpath'
      exact hne hpath'.1

/-! ## What a walk meets -/

/-- What the walk does for one node, its entries apart. -/
def Node.here (follow : Nat → Position → List (Event α)) (pos : Position) :
    Node α → List (Event α)
  | .file content => [.look (some (pos, content)) []]
  | .dir _ => [.enter pos []]
  | .link further target => follow further target
  | .other => [.look none []]

/-- A walk does it for every node that stands below the one it begins at. -/
theorem Node.walk_filterMap {β : Type*} (f : Event α → Option β)
    (hunder : ∀ name e, f (.under name e) = f e) (follow : Nat → Position → List (Event α))
    (pos : Position) (node : Node α) :
    (node.walk follow pos).filterMap f =
      (node.nodes pos).flatMap fun p ↦ (p.2.here follow p.1).filterMap f := by
  induction node using Node.treeInduction generalizing pos with
  | file content => simp [Node.walk, Node.nodes, Node.here]
  | link further target => simp [Node.walk, Node.nodes, Node.here]
  | other => simp [Node.walk, Node.nodes, Node.here]
  | dir entries ih =>
    -- what `f` sees of an event does not depend on where the walk began
    have hmap : ∀ e ∈ entries,
        ((e.2.walk follow (pos ++ [e.1])).map (Event.under e.1)).filterMap f =
          (e.2.nodes (pos ++ [e.1])).flatMap fun p ↦ (p.2.here follow p.1).filterMap f := by
      intro e he
      have hsame : f ∘ Event.under e.1 = f := funext (hunder e.1)
      rw [List.filterMap_map, hsame, ih e he]
    rw [Node.walk, walkEntries_eq, Node.nodes, nodesEntries_eq, List.flatMap_cons, Node.here,
      ← List.singleton_append, List.filterMap_append, List.filterMap_flatMap, List.flatMap_assoc]
    congr 1
    exact List.flatMap_congr hmap

/-- No two files are walked to along one path. -/
theorem Node.nodup_paths {follow : Nat → Position → List (Event α)}
    (hfollow : ∀ further target, ((follow further target).filterMap Event.path?).Nodup)
    {node : Node α} (h : node.Distinct) (pos : Position) :
    ((node.walk follow pos).filterMap Event.path?).Nodup := by
  induction node using Node.treeInduction generalizing pos with
  | file content => exact List.nodup_singleton []
  | link further target => exact hfollow further target
  | other => exact List.nodup_nil
  | dir entries ih =>
    have hentry := (distinctEntries_iff entries).mp h.2
    have hmap : ∀ e : String × Node α,
        ((e.2.walk follow (pos ++ [e.1])).map (Event.under e.1)).filterMap Event.path? =
          ((e.2.walk follow (pos ++ [e.1])).filterMap Event.path?).map (e.1 :: ·) := by
      intro e
      rw [List.filterMap_map, List.map_filterMap]
      exact List.filterMap_congr fun event _ ↦ Event.path?_under e.1 event
    rw [Node.walk, List.filterMap_cons_none rfl, walkEntries_eq, List.filterMap_flatMap,
      List.nodup_flatMap]
    refine ⟨fun e he ↦ ?_, ?_⟩
    · rw [hmap]
      exact (ih e he (hentry e he) _).map (List.cons_injective)
    -- the paths through two entries begin with different names
    · refine (List.pairwise_map.mp h.1).imp fun {e f} hne path hpath hpath' ↦ ?_
      dsimp only at hpath hpath'
      rw [hmap] at hpath hpath'
      obtain ⟨_, -, rfl⟩ := List.mem_map.mp hpath
      obtain ⟨_, -, heq⟩ := List.mem_map.mp hpath'
      exact hne (List.cons.inj heq).1.symm

namespace FileSystem

variable {fs : FileSystem α}

theorem nodup_paths_follow (links further : Nat) (target : Position) :
    ((fs.follow links further target).filterMap Event.path?).Nodup := by
  induction links generalizing further target with
  | zero => exact List.nodup_nil
  | succ links ih =>
    cases further with
    | succ further => exact ih further target
    | zero =>
      rw [follow]
      cases hnode : fs.root.find target with
      | none => exact List.nodup_nil
      | some node => exact Node.nodup_paths ih (fs.distinct.find hnode) target

theorem nodup_paths (links : Nat) (pos : Position) :
    ((fs.walk links pos).filterMap Event.path?).Nodup := by
  rw [walk]
  cases hnode : fs.root.find pos with
  | none => exact List.nodup_nil
  | some node => exact Node.nodup_paths (nodup_paths_follow links) (fs.distinct.find hnode) pos

theorem follow_of_le {links further : Nat} (h : links ≤ further) (target : Position) :
    fs.follow links further target = [.look none []] := by
  induction links generalizing further with
  | zero => rfl
  | succ links ih =>
    cases further with
    | zero => omega
    | succ further => exact ih (by omega)

theorem follow_of_lt {links further : Nat} (h : further < links) (target : Position) :
    fs.follow links further target = fs.walk (links - (further + 1)) target := by
  induction links generalizing further with
  | zero => omega
  | succ links ih =>
    cases further with
    | zero => rfl
    | succ further =>
      rw [follow, ih (by omega)]
      congr 1
      omega

theorem mem_nodes_iff {pos p : Position} {node below : Node α}
    (hnode : fs.root.find pos = some node) :
    (p, below) ∈ node.nodes pos ↔ pos <+: p ∧ fs.root.find p = some below := by
  rw [Node.mem_nodes_iff (fs.distinct.find hnode)]
  constructor
  · intro h
    obtain ⟨path, rfl, hfind⟩ := h
    refine ⟨List.prefix_append pos path, ?_⟩
    rw [Node.find_append, hnode, Option.bind_some, hfind]
  · intro h
    obtain ⟨⟨path, rfl⟩, hfind⟩ := h
    rw [Node.find_append, hnode, Option.bind_some] at hfind
    exact ⟨path, rfl, hfind⟩

/-- What stands at or below a position, and the events there. -/
theorem mem_walk_iff {β : Type*} {f : Event α → Option β}
    (hunder : ∀ name e, f (.under name e) = f e) {links : Nat} {pos : Position} {x : β}
    {node : Node α} (hnode : fs.root.find pos = some node) :
    x ∈ (fs.walk links pos).filterMap f ↔
      ∃ p below, (p, below) ∈ node.nodes pos ∧
        x ∈ (below.here (fs.follow links) p).filterMap f := by
  rw [walk, hnode]
  dsimp only
  rw [Node.walk_filterMap f hunder, List.mem_flatMap]
  exact Prod.exists

/-! ## Where links lead -/

/-- Something stands at or below a place that links lead to, just when the first of them leads
there or on. -/
theorem leads_iff {links : Nat} {pos x : Position} :
    (∃ u, fs.Leads links pos u ∧ u <+: x) ↔
      ∃ p further target, pos <+: p ∧ fs.root.find p = some (.link further target) ∧
        further < links ∧
        (target <+: x ∨ ∃ u, fs.Leads (links - (further + 1)) target u ∧ u <+: x) := by
  constructor
  · intro h
    obtain ⟨u, hleads, hu⟩ := h
    cases hleads with
    | link hlink hfew => exact ⟨_, _, _, List.prefix_append .., hlink, hfew, .inl hu⟩
    | links hlink hfew hrest =>
      exact ⟨_, _, _, List.prefix_append .., hlink, hfew, .inr ⟨u, hrest, hu⟩⟩
  · intro h
    obtain ⟨_, further, target, ⟨path, rfl⟩, hlink, hfew, hhere | ⟨u, hrest, hu⟩⟩ := h
    · exact ⟨target, .link hlink hfew, hhere⟩
    · exact ⟨u, .links hlink hfew hrest, hu⟩

/-- An event that is there for the nodes of one kind, under their positions. -/
structure Shows (f : Event α → Option Position) (kind : Node α → Prop) : Prop where
  under : ∀ name e, f (.under name e) = f e
  lost : f (.look none []) = none
  link : ∀ further target, ¬kind (.link further target)
  here : ∀ follow pos node, (∀ further target, node ≠ .link further target) →
    ∀ x, x ∈ (node.here follow pos).filterMap f ↔ x = pos ∧ kind node

theorem shows_file? : Shows (α := α) Event.file? fun node ↦ ∃ content, node = .file content where
  under := Event.file?_under
  lost := rfl
  link := nofun
  here follow pos node hlink x := by
    cases node with
    | link further target => exact absurd rfl (hlink further target)
    | _ => simp [Node.here, Event.file?]

theorem shows_dir? : Shows (α := α) Event.dir? fun node ↦ ∃ entries, node = .dir entries where
  under := Event.dir?_under
  lost := rfl
  link := nofun
  here follow pos node hlink x := by
    cases node with
    | link further target => exact absurd rfl (hlink further target)
    | _ => simp [Node.here, Event.dir?]

/-- Too many links lead nowhere. -/
theorem Shows.mem_follow_iff {f : Event α → Option Position} {kind : Node α → Prop}
    (hf : Shows f kind) {links further : Nat} {target x : Position} :
    x ∈ (fs.follow links further target).filterMap f ↔
      further < links ∧ x ∈ (fs.walk (links - (further + 1)) target).filterMap f := by
  by_cases hfew : further < links
  · rw [follow_of_lt hfew]
    exact (and_iff_right hfew).symm
  · rw [follow_of_le (by omega), List.filterMap_cons_none hf.lost]
    exact iff_of_false List.not_mem_nil fun h ↦ hfew h.1

/-- A node shows where it stands itself, or is a link that shows what it leads to. -/
theorem Shows.mem_here_iff {f : Event α → Option Position} {kind : Node α → Prop}
    (hf : Shows f kind) {links : Nat} {p x : Position} {node : Node α} :
    x ∈ (node.here (fs.follow links) p).filterMap f ↔
      (x = p ∧ kind node) ∨ ∃ further target, node = .link further target ∧
        further < links ∧ x ∈ (fs.walk (links - (further + 1)) target).filterMap f := by
  by_cases hlink : ∃ further target, node = .link further target
  · obtain ⟨further, target, rfl⟩ := hlink
    rw [or_iff_right fun h ↦ hf.link further target h.2]
    constructor
    · intro h
      exact ⟨further, target, rfl, hf.mem_follow_iff.mp h⟩
    · intro h
      obtain ⟨_, _, heq, hrest⟩ := h
      obtain ⟨rfl, rfl⟩ := Node.link.inj heq
      exact hf.mem_follow_iff.mpr hrest
  · rw [or_iff_left fun ⟨further, target, heq, _⟩ ↦ hlink ⟨further, target, heq⟩]
    exact hf.here _ p node (fun further target heq ↦ hlink ⟨further, target, heq⟩) x

/-- A walk meets just what is at or below its start, and at or below where links lead from
there. -/
theorem Shows.mem_walk_iff {f : Event α → Option Position} {kind : Node α → Prop}
    (hf : Shows f kind) {links : Nat} {pos x : Position} :
    x ∈ (fs.walk links pos).filterMap f ↔
      (∃ node, fs.root.find x = some node ∧ kind node) ∧
        (pos <+: x ∨ ∃ u, fs.Leads links pos u ∧ u <+: x) := by
  -- each link that is followed leaves fewer of them
  induction links using Nat.strong_induction_on generalizing pos with
  | _ links ih =>
    rw [leads_iff]
    cases hnode : fs.root.find pos with
    | none =>
      -- nothing stands below either
      have hnone : ∀ p below, pos <+: p → fs.root.find p ≠ some below := by
        intro p below hp
        obtain ⟨path, rfl⟩ := hp
        rw [Node.find_append, hnode, Option.bind_none]
        nofun
      rw [walk, hnode]
      refine iff_of_false ?_ ?_
      · rw [List.filterMap_cons_none hf.lost]
        exact List.not_mem_nil
      · rintro ⟨⟨node, hx, -⟩, hbelow | ⟨p, _, _, hp, hlink, -⟩⟩
        · exact hnone x node hbelow hx
        · exact hnone p _ hp hlink
    | some node =>
      rw [FileSystem.mem_walk_iff hf.under hnode]
      simp only [mem_nodes_iff hnode]
      constructor
      · intro h
        obtain ⟨p, below, ⟨hp, hbelow⟩, hx⟩ := h
        rcases hf.mem_here_iff.mp hx with ⟨rfl, hkind⟩ | ⟨further, target, rfl, hfew, hx⟩
        · exact ⟨⟨below, hbelow, hkind⟩, .inl hp⟩
        · obtain ⟨hkind, hrest⟩ := (ih _ (by omega)).mp hx
          exact ⟨hkind, .inr ⟨p, further, target, hp, hbelow, hfew, hrest⟩⟩
      · intro h
        obtain ⟨⟨below, hx, hkind⟩, hhere | ⟨p, further, target, hp, hlink, hfew, hrest⟩⟩ := h
        · exact ⟨x, below, ⟨hhere, hx⟩, hf.mem_here_iff.mpr (.inl ⟨rfl, hkind⟩)⟩
        · refine ⟨p, _, ⟨hp, hlink⟩, hf.mem_here_iff.mpr (.inr ⟨_, _, rfl, hfew, ?_⟩)⟩
          exact (ih _ (by omega)).mpr ⟨⟨below, hx, hkind⟩, hrest⟩

/-- A file below the start of a walk is looked at once for itself, and then for each link that leads
to it. -/
theorem count_file (links : Nat) {pos q : Position} {node : Node α} {content : α}
    (hnode : fs.root.find pos = some node) (hself : (q, .file content) ∈ node.nodes pos) :
    ∃ others : List (Position × Node α),
      (∀ p below, (p, below) ∈ others ↔ (p, below) ∈ node.nodes pos ∧ p ≠ q) ∧
        ((fs.walk links pos).filterMap Event.file?).count q =
          1 + (others.flatMap fun p ↦
            (p.2.here (fs.follow links) p.1).filterMap Event.file?).count q := by
  obtain ⟨pre, post, hsplit⟩ := List.append_of_mem hself
  refine ⟨pre ++ post, fun p below ↦ ?_, ?_⟩
  · -- each position has one node
    have hnodup := Node.nodup_nodes (fs.distinct.find hnode) pos
    rw [hsplit, List.map_append, List.map_cons, List.nodup_middle, List.nodup_cons,
      ← List.map_append] at hnodup
    have hne : (p, below) ∈ pre ++ post → p ≠ q := by
      intro hp heq
      exact hnodup.1 (List.mem_map.mpr ⟨_, hp, heq⟩)
    rw [hsplit, List.mem_append, List.mem_append, List.mem_cons] at *
    constructor
    · intro h
      exact ⟨h.imp_right .inr, hne h⟩
    · rintro ⟨hpre | hfile | hpost, hother⟩
      · exact .inl hpre
      · exact absurd (Prod.mk.inj hfile).1 hother
      · exact .inr hpost
  · have hone : (Event.file? (.look (some (q, content)) [])) = some q := rfl
    rw [walk, hnode]
    dsimp only
    rw [Node.walk_filterMap _ Event.file?_under, hsplit, List.flatMap_append, List.flatMap_cons,
      List.flatMap_append, List.count_append, List.count_append, List.count_append, Node.here,
      List.filterMap_cons_some hone, List.filterMap_nil, List.count_singleton_self]
    omega

/-- A file below the start of a walk is looked at once just when no links lead to it or above it. -/
theorem count_file_eq_one_iff {links : Nat} {pos q : Position} (hq : fs.IsFile q)
    (hpos : pos <+: q) :
    ((fs.walk links pos).filterMap Event.file?).count q = 1 ↔
      ∀ u, fs.Leads links pos u → ¬u <+: q := by
  obtain ⟨content, hcontent⟩ := hq
  obtain ⟨node, hnode⟩ : ∃ node, fs.root.find pos = some node := by
    obtain ⟨path, rfl⟩ := hpos
    rw [Node.find_append, Option.bind_eq_some_iff] at hcontent
    exact ⟨hcontent.choose, hcontent.choose_spec.1⟩
  have hself := (mem_nodes_iff hnode).mpr ⟨hpos, hcontent⟩
  obtain ⟨others, hothers, hcount⟩ := count_file links hnode hself
  have hkind : ∃ node, fs.root.find q = some node ∧ ∃ content, node = .file content :=
    ⟨_, hcontent, content, rfl⟩
  rw [hcount, Nat.add_eq_left, List.count_eq_zero, List.mem_flatMap]
  -- what shows the file again is a link to it or above it
  suffices hagain : (∃ p ∈ others,
      q ∈ (p.2.here (fs.follow links) p.1).filterMap Event.file?) ↔
        ∃ u, fs.Leads links pos u ∧ u <+: q by
    rw [hagain, not_exists]
    exact forall_congr' fun u ↦ not_and
  rw [leads_iff]
  constructor
  · intro h
    obtain ⟨⟨p, below⟩, hp, hx⟩ := h
    obtain ⟨hbelow, hne⟩ := (hothers p below).mp hp
    obtain ⟨hpre, hfind⟩ := (mem_nodes_iff hnode).mp hbelow
    rcases shows_file?.mem_here_iff.mp hx with ⟨rfl, -⟩ | ⟨further, target, rfl, hfew, hwalk⟩
    · exact absurd rfl hne
    · exact ⟨p, further, target, hpre, hfind, hfew, (shows_file?.mem_walk_iff.mp hwalk).2⟩
  · intro h
    obtain ⟨p, further, target, hpre, hlink, hfew, hrest⟩ := h
    -- a link is no file
    have hne : p ≠ q := by
      rintro rfl
      rw [hcontent] at hlink
      nomatch hlink
    refine ⟨(p, .link further target), (hothers _ _).mpr ⟨?_, hne⟩, ?_⟩
    · exact (mem_nodes_iff hnode).mpr ⟨hpre, hlink⟩
    · refine shows_file?.mem_here_iff.mpr (.inr ⟨further, target, rfl, hfew, ?_⟩)
      exact shows_file?.mem_walk_iff.mpr ⟨hkind, hrest⟩

end FileSystem

end FileTree
