import CodeSnippets.Proofs.FileTree
import CodeSnippets.Proofs.PathText

/-!
# Walks through a file tree

A walk goes from directory to directory, name by name, until it arrives or meets a link that has to be followed.

* `Location.along`: where names lead by name alone.
* `Walks`, `walk_eq_ok_iff`: a walk as a relation, with one rule for each kind of name.
* `walk_append_of_arrived`, `walk_append_of_atLink`: a path that goes on is walked from where the path before it leads.
* `walk_along`: where no link is on the way a walk goes by name alone.
* `walk_of_keeps`: a walk can be done in every tree that has the same directories and links.
-/

namespace CodeSnippets

open Text

namespace Location

/-- Where a name leads from a directory by name alone. -/
def move (here : Location) (name : Text) : Location :=
  if name = dotDot then here.dropLast else if name = [] ∨ name = dot then here else here ++ [name]

/-- Where names lead from a directory by name alone. -/
def along (here : Location) (names : List Text) : Location := names.foldl move here

@[simp] theorem along_nil (here : Location) : here.along [] = here := rfl

theorem along_cons (here : Location) (name : Text) (rest : List Text) :
    here.along (name :: rest) = (here.move name).along rest := rfl

theorem along_append (here : Location) (names rest : List Text) :
    here.along (names ++ rest) = (here.along names).along rest := by
  simp [along]

theorem along_append_singleton (here : Location) (names : List Text) (name : Text) :
    here.along (names ++ [name]) = (here.along names).move name := by
  simp [along]

@[simp] theorem move_dotDot (here : Location) : here.move dotDot = here.dropLast := if_pos rfl

@[simp] theorem move_nil (here : Location) : here.move [] = here := by
  simp [move, dotDot]

@[simp] theorem move_dot (here : Location) : here.move dot = here := by
  simp [move, dotDot, dot]

theorem move_name (here : Location) {name : Text} (hnil : name ≠ []) (hdot : name ≠ dot) (hdotDot : name ≠ dotDot) :
    here.move name = here ++ [name] := by
  simp [move, hnil, hdot, hdotDot]

theorem mem_of_mem_move {here : Location} {name part : Text} (h : part ∈ here.move name) : part ∈ here ∨ part = name := by
  unfold move at h
  split at h
  · exact .inl (here.dropLast_subset h)
  split at h
  · exact .inl h
  · simpa using h

/-- Names lead to a location of names that were there before, and of their own. -/
theorem mem_of_mem_along {here : Location} {names : List Text} {part : Text} (h : part ∈ here.along names) :
    part ∈ here ∨ part ∈ names := by
  induction names generalizing here with
  | nil => exact .inl h
  | cons name names ih =>
    rcases ih h with hmove | hnames
    · rcases mem_of_mem_move hmove with hhere | rfl
      · exact .inl hhere
      · exact .inr List.mem_cons_self
    · exact .inr (List.mem_cons_of_mem _ hnames)

/-- Names that stand for nodes lead down. -/
theorem along_eq_append (here : Location) {names : List Text} (h : ∀ name ∈ names, Path.IsPart name)
    (hdotDot : dotDot ∉ names) : here.along names = here ++ names := by
  induction names generalizing here with
  | nil => simp
  | cons name names ih =>
    obtain ⟨hname, hnames⟩ := List.forall_mem_cons.1 h
    rw [List.mem_cons, not_or] at hdotDot
    rw [along_cons, move_name here hname.ne_nil hname.ne_dot (Ne.symm hdotDot.1), ih _ hnames hdotDot.2,
      List.append_assoc]
    rfl

end Location

theorem isPart_of_isName {name : Text} (h : isName name = true) : Path.IsPart name ∧ name ≠ dotDot := by
  simp only [isName, Bool.and_eq_true, Bool.not_eq_true', decide_eq_true_eq, List.isEmpty_eq_false_iff] at h
  obtain ⟨⟨⟨⟨hnil, hdot⟩, hdotDot⟩, hslash⟩, -⟩ := h
  exact ⟨⟨hnil, hdot, by simpa using hslash⟩, hdotDot⟩

theorem null_notMem_of_isName {name : Text} (h : isName name = true) : '\x00' ∉ name := by
  simp only [isName, Bool.and_eq_true, Bool.not_eq_true'] at h
  simpa using h.2

namespace Path

/-- At the root parts are worked out by name alone as names are that lead from directory to directory. -/
theorem collapseParts_eq_along {parts : List Text} (h : ∀ part ∈ parts, IsPart part) :
    collapseParts true parts = Location.along [] parts := by
  suffices hdone : ∀ done : List Text, dotDot ∉ done →
      parts.foldl (fun done p =>
        if p ≠ dotDot then done ++ [p]
        else if done.isEmpty then (if true then [] else [p])
        else if done.getLast? = some dotDot then done ++ [p]
        else done.dropLast) done = Location.along done parts from hdone [] (by simp)
  induction parts with
  | nil => exact fun done _ => rfl
  | cons part parts ih =>
    intro done hdone
    obtain ⟨hpart, hparts⟩ := List.forall_mem_cons.1 h
    rw [List.foldl_cons, Location.along_cons]
    by_cases hdotDot : part = dotDot
    · subst hdotDot
      rw [Location.move_dotDot]
      -- No name for the directory above is left behind, so that one is taken away unless there is none.
      have hlast : done.getLast? ≠ some dotDot := fun hlast => hdone (List.mem_of_getLast? hlast)
      cases done with
      | nil => exact ih hparts [] (by simp)
      | cons name done =>
        simp only [ne_eq, not_true_eq_false, if_false, List.isEmpty_cons, Bool.false_eq_true, hlast]
        exact ih hparts _ fun hmem => hdone (List.dropLast_subset _ hmem)
    · rw [Location.move_name _ hpart.ne_nil hpart.ne_dot hdotDot, if_pos hdotDot]
      exact ih hparts _ (by simpa [Ne.symm hdotDot] using hdone)

end Path

namespace Node

/-- There is a directory at a location in which names can be looked up. -/
def Searchable (root : Node) (here : Location) : Prop :=
  ∃ entries mode, root.get? here = some (.directory entries mode) ∧ (Node.directory entries mode).mayRun = true

/-- Looking up a name in the directory at a location finds a node. -/
structure Finds (root : Node) (here : Location) (name : Text) (child : Node) : Prop where
  searchable : root.Searchable here
  get? : root.get? (here ++ [name]) = some child
  size_le : Utf8.size name ≤ Machine.maxNameSize
  ne_nil : name ≠ []
  ne_dot : name ≠ dot
  ne_dotDot : name ≠ dotDot

theorem Finds.exists_entry {root : Node} {here : Location} {name : Text} {child : Node}
    (h : root.Finds here name child) : ∃ entries mode, root.get? here = some (.directory entries mode) ∧
      (Node.directory entries mode).mayRun = true ∧ Named.get? entries name = some child := by
  obtain ⟨entries, mode, hdirectory, hrun⟩ := h.searchable
  obtain ⟨_, _, hsame, hentry⟩ := get?_append_singleton_eq_some_iff.1 h.get?
  obtain ⟨rfl, rfl⟩ := Node.directory.inj (Option.some.inj (hdirectory.symm.trans hsame))
  exact ⟨entries, mode, hdirectory, hrun, hentry⟩

theorem exists_directory_of_keeps {root root' : Node} {here : Location} {entries : Named Node} {mode : Nat}
    (hkeeps : root.Keeps root') (h : root.get? here = some (.directory entries mode)) :
    ∃ entries', root'.get? here = some (.directory entries' mode) := by
  obtain ⟨y, hy, hlook⟩ := hkeeps _ _ h
  obtain ⟨entries', rfl⟩ := look_eq_directory_iff.1 hlook
  exact ⟨entries', hy⟩

theorem Searchable.of_keeps {root root' : Node} {here : Location} (h : root.Searchable here)
    (hkeeps : root.Keeps root') : root'.Searchable here := by
  obtain ⟨entries, mode, hdirectory, hrun⟩ := h
  obtain ⟨entries', hdirectory'⟩ := exists_directory_of_keeps hkeeps hdirectory
  exact ⟨entries', mode, hdirectory', hrun⟩

theorem Finds.of_keeps {root root' : Node} {here : Location} {name : Text} {child : Node}
    (h : root.Finds here name child) (hkeeps : root.Keeps root') :
    ∃ child', root'.Finds here name child' ∧ child'.look = child.look := by
  obtain ⟨child', hchild', hlook⟩ := hkeeps _ _ h.get?
  exact ⟨child', { h with searchable := h.searchable.of_keeps hkeeps, get? := hchild' }, hlook⟩

end Node

namespace Machine

section Walks

variable {root : Node} {followLast : Bool} {here place : Location} {name target : Text} {names rest : List Text}

/-! ### One name after the other -/

theorem walk_nil_cons {entries : Named Node} {mode : Nat} (h : root.get? here = some (.directory entries mode)) :
    walk root followLast here ([] :: rest) = walk root followLast here rest := by
  simp [walk, h]

theorem walk_dot_cons (h : root.Searchable here) :
    walk root followLast here (dot :: rest) = walk root followLast here rest := by
  obtain ⟨entries, mode, hdirectory, hrun⟩ := h
  rw [walk, hdirectory]
  simp [hrun, dot]

theorem walk_dotDot_cons (h : root.Searchable here) :
    walk root followLast here (dotDot :: rest) = walk root followLast here.dropLast rest := by
  obtain ⟨entries, mode, hdirectory, hrun⟩ := h
  rw [walk, hdirectory]
  simp [hrun, dot, dotDot]

/-- A name that stands for a node is walked over if the node is no link. -/
theorem walk_cons_of_not_link {child : Node} (h : root.Finds here name child) (hchild : child.isLink = false) :
    walk root followLast here (name :: rest) = walk root followLast (here ++ [name]) rest := by
  obtain ⟨entries, mode, hdirectory, hrun, hentry⟩ := h.exists_entry
  rw [walk, hdirectory]
  simp only [hrun, List.isEmpty_iff, h.ne_nil, h.ne_dot, h.ne_dotDot, Nat.not_lt.2 h.size_le, if_false,
    Bool.not_true, Bool.false_eq_true, hentry]
  cases child with
  | link target => simp [Node.isLink] at hchild
  | _ => rfl

/-- A walk comes to its end at a link, which has to be followed unless it is the last name. -/
theorem walk_cons_of_link (h : root.Finds here name (.link target)) :
    walk root followLast here (name :: rest) =
      if rest = [] ∧ followLast = false then .ok (.arrived (here ++ [name])) else .ok (.atLink here target rest) := by
  obtain ⟨entries, mode, hdirectory, hrun, hentry⟩ := h.exists_entry
  rw [walk, hdirectory]
  simp only [hrun, List.isEmpty_iff, h.ne_nil, h.ne_dot, h.ne_dotDot, Nat.not_lt.2 h.size_le, if_false,
    Bool.not_true, Bool.false_eq_true, hentry, Bool.and_eq_true, Bool.not_eq_true']

/-- How a walk comes to its end. -/
inductive Walks (root : Node) (followLast : Bool) : Location → List Text → Walk → Prop
  /-- No name is left. -/
  | arrive {here : Location} : Walks root followLast here [] (.arrived here)
  /-- An empty name asks for a directory. -/
  | slash {here : Location} {entries : Named Node} {mode : Nat} {rest : List Text} {w : Walk} :
      root.get? here = some (.directory entries mode) → Walks root followLast here rest w →
        Walks root followLast here ([] :: rest) w
  /-- The name of a directory itself. -/
  | stay {here : Location} {rest : List Text} {w : Walk} :
      root.Searchable here → Walks root followLast here rest w → Walks root followLast here (dot :: rest) w
  /-- The name of the directory above. -/
  | up {here : Location} {rest : List Text} {w : Walk} :
      root.Searchable here → Walks root followLast here.dropLast rest w →
        Walks root followLast here (dotDot :: rest) w
  /-- The name of a node that is no link. -/
  | down {here : Location} {name : Text} {child : Node} {rest : List Text} {w : Walk} :
      root.Finds here name child → child.isLink = false → Walks root followLast (here ++ [name]) rest w →
        Walks root followLast here (name :: rest) w
  /-- The name of a link at the end that is not followed. -/
  | last {here : Location} {name target : Text} :
      root.Finds here name (.link target) → followLast = false →
        Walks root followLast here [name] (.arrived (here ++ [name]))
  /-- The name of a link that has to be followed. -/
  | meet {here : Location} {name target : Text} {rest : List Text} :
      root.Finds here name (.link target) → (rest = [] → followLast = true) →
        Walks root followLast here (name :: rest) (.atLink here target rest)

theorem Walks.walk_eq {w : Walk} (h : Walks root followLast here names w) :
    walk root followLast here names = .ok w := by
  induction h with
  | arrive => rfl
  | slash hdirectory _ ih => rw [walk_nil_cons hdirectory, ih]
  | stay hsearch _ ih => rw [walk_dot_cons hsearch, ih]
  | up hsearch _ ih => rw [walk_dotDot_cons hsearch, ih]
  | down hfinds hchild _ ih => rw [walk_cons_of_not_link hfinds hchild, ih]
  | last hfinds hlast => rw [walk_cons_of_link hfinds, if_pos ⟨rfl, hlast⟩]
  | meet hfinds hlast =>
    rw [walk_cons_of_link hfinds, if_neg]
    rintro ⟨hrest, hfollow⟩
    simp [hlast hrest] at hfollow

-- The induction follows the names; the cases are the branches of a walk, of which those that fail are none of its rules.
theorem walks_of_walk_eq {w : Walk} (h : walk root followLast here names = .ok w) :
    Walks root followLast here names w := by
  induction names generalizing here with
  | nil =>
    obtain rfl := Except.ok.inj h
    exact .arrive
  | cons name rest ih =>
    rw [walk] at h
    split at h
    · rename_i entries mode hdirectory
      by_cases hnil : name = []
      · subst hnil
        exact .slash hdirectory (ih h)
      · simp only [List.isEmpty_iff, hnil, if_false] at h
        split at h
        · cases h
        rename_i hrun
        have hsearch : root.Searchable here := ⟨entries, mode, hdirectory, by simpa using hrun⟩
        split at h
        · rename_i hdot
          exact hdot ▸ .stay hsearch (ih h)
        rename_i hdot
        split at h
        · rename_i hdotDot
          exact hdotDot ▸ .up hsearch (ih h)
        rename_i hdotDot
        split at h
        · cases h
        rename_i hsize
        -- The name stands for a node of the directory, if for anything.
        have hfinds {child : Node} (hchild : Named.get? entries name = some child) : root.Finds here name child :=
          ⟨hsearch, Node.get?_append_singleton_eq_some_iff.2 ⟨entries, mode, hdirectory, hchild⟩,
            Nat.not_lt.1 hsize, hnil, hdot, hdotDot⟩
        split at h
        · cases h
        · rename_i target hchild
          split at h
          · rename_i hlast
            simp only [Bool.and_eq_true, List.isEmpty_iff, Bool.not_eq_true'] at hlast
            obtain ⟨rfl, hfollow⟩ := hlast
            obtain rfl := Except.ok.inj h
            exact .last (hfinds hchild) hfollow
          · rename_i hlast
            obtain rfl := Except.ok.inj h
            exact .meet (hfinds hchild) fun hrest => by simpa [hrest] using hlast
        · rename_i child hlink hchild
          refine .down (hfinds hchild) ?_ (ih h)
          cases child with
          | link target => exact absurd rfl (hlink target)
          | _ => rfl
    · cases h

/-- A walk is what its rules say. -/
theorem walk_eq_ok_iff {w : Walk} : walk root followLast here names = .ok w ↔ Walks root followLast here names w :=
  ⟨walks_of_walk_eq, Walks.walk_eq⟩

/-- The directory above is looked up in the directory itself. -/
theorem searchable_of_walk_dotDot {w : Walk} (h : walk root followLast here (dotDot :: rest) = .ok w) :
    root.Searchable here := by
  generalize hname : dotDot = name at h
  cases walks_of_walk_eq h with
  | slash => simp [dotDot] at hname
  | stay => simp [dotDot, dot] at hname
  | up hsearch _ => exact hsearch
  | down hfinds _ _ => exact hfinds.searchable
  | last hfinds _ => exact hfinds.searchable
  | meet hfinds _ => exact hfinds.searchable

/-- Any other part of a path that a walk begins with is found in the directory. -/
theorem exists_finds_of_walk_cons {name : Text} {w : Walk} (h : walk root followLast here (name :: rest) = .ok w)
    (hname : Path.IsPart name) (hdotDot : name ≠ dotDot) : ∃ child, root.Finds here name child := by
  cases walks_of_walk_eq h with
  | slash => exact absurd rfl hname.ne_nil
  | stay => exact absurd rfl hname.ne_dot
  | up => exact absurd rfl hdotDot
  | down hfinds _ _ => exact ⟨_, hfinds⟩
  | last hfinds _ => exact ⟨_, hfinds⟩
  | meet hfinds _ => exact ⟨_, hfinds⟩

/-! ### Names that come later -/

/-- A walk that arrives where all links must be followed has met none, so that more names are walked from there. -/
theorem walk_append_of_arrived (h : walk root true here names = .ok (.arrived place)) (rest : List Text) :
    walk root followLast here (names ++ rest) = walk root followLast place rest := by
  induction names generalizing here with
  | nil =>
    obtain rfl := Walk.arrived.inj (Except.ok.inj h)
    rfl
  | cons name names ih =>
    rw [List.cons_append]
    -- A link would have been followed, so that the walk would not have arrived.
    cases walks_of_walk_eq h with
    | slash hdirectory hnames => rw [walk_nil_cons hdirectory, ih hnames.walk_eq]
    | stay hsearch hnames => rw [walk_dot_cons hsearch, ih hnames.walk_eq]
    | up hsearch hnames => rw [walk_dotDot_cons hsearch, ih hnames.walk_eq]
    | down hfinds hchild hnames => rw [walk_cons_of_not_link hfinds hchild, ih hnames.walk_eq]
    | last _ hlast => simp at hlast

/-- A walk to a link ends there whatever names come later. -/
theorem walk_append_of_atLink {directory : Location} {left : List Text}
    (h : walk root true here names = .ok (.atLink directory target left)) (hrest : rest ≠ []) :
    walk root followLast here (names ++ rest) = .ok (.atLink directory target (left ++ rest)) := by
  induction names generalizing here with
  | nil => cases walks_of_walk_eq h
  | cons name names ih =>
    rw [List.cons_append]
    cases walks_of_walk_eq h with
    | slash hdirectory hnames => rw [walk_nil_cons hdirectory, ih hnames.walk_eq]
    | stay hsearch hnames => rw [walk_dot_cons hsearch, ih hnames.walk_eq]
    | up hsearch hnames => rw [walk_dotDot_cons hsearch, ih hnames.walk_eq]
    | down hfinds hchild hnames => rw [walk_cons_of_not_link hfinds hchild, ih hnames.walk_eq]
    | meet hfinds _ =>
      rw [walk_cons_of_link hfinds, if_neg]
      rintro ⟨hnil, -⟩
      exact hrest (List.append_eq_nil_iff.1 hnil).2

/-- Where a walk meets no link it does not matter whether the last name would have been followed. -/
theorem walk_eq_of_arrived (h : walk root true here names = .ok (.arrived place)) :
    walk root followLast here names = .ok (.arrived place) := by
  rw [← List.append_nil names, walk_append_of_arrived h]
  rfl

/-- Where no link is on the way a walk goes by name alone. -/
theorem walk_along {w : Walk} (h : walk root followLast here (names ++ rest) = .ok w)
    (hfree : ∀ init, init <+: names → ∀ n, root.get? (here.along init) = some n → n.isLink = false) :
    walk root true here names = .ok (.arrived (here.along names)) := by
  induction names generalizing here with
  | nil => rfl
  | cons name names ih =>
    have hnext : ∀ init, init <+: names → ∀ n, root.get? ((here.move name).along init) = some n → n.isLink = false :=
      fun init hinit => hfree (name :: init) (List.cons_prefix_cons.2 ⟨rfl, hinit⟩)
    -- A link would stand where the name leads by name alone.
    have hlink {t : Text} (hfinds : root.Finds here name (.link t)) : False := by
      have := hfree [name] (by simp) (.link t)
      rw [Location.along_cons, Location.along_nil, Location.move_name _ hfinds.ne_nil hfinds.ne_dot hfinds.ne_dotDot]
        at this
      simpa [Node.isLink] using this hfinds.get?
    -- Every rule goes on from where the name leads by name alone.
    replace ih := @ih (here.move name)
    rw [Location.along_cons]
    rw [List.cons_append] at h
    generalize names ++ rest = all at h ih
    cases walks_of_walk_eq h with
    | slash hdirectory hnames =>
      rw [Location.move_nil] at hnext ih ⊢
      rw [walk_nil_cons hdirectory, ih hnames.walk_eq hnext]
    | stay hsearch hnames =>
      rw [Location.move_dot] at hnext ih ⊢
      rw [walk_dot_cons hsearch, ih hnames.walk_eq hnext]
    | up hsearch hnames =>
      rw [Location.move_dotDot] at hnext ih ⊢
      rw [walk_dotDot_cons hsearch, ih hnames.walk_eq hnext]
    | down hfinds hchild hnames =>
      rw [Location.move_name _ hfinds.ne_nil hfinds.ne_dot hfinds.ne_dotDot] at hnext ih ⊢
      rw [walk_cons_of_not_link hfinds hchild, ih hnames.walk_eq hnext]
    | last hfinds _ => exact (hlink hfinds).elim
    | meet hfinds _ => exact (hlink hfinds).elim

/-- A walk that ends at no link goes the same way if its last name is followed. -/
theorem Walks.following {w : Walk} (h : Walks root false here names w)
    (hplace : ∀ place n, w = .arrived place → root.get? place = some n → n.isLink = false) :
    Walks root true here names w := by
  induction h with
  | arrive => exact .arrive
  | slash hdirectory _ ih => exact .slash hdirectory (ih hplace)
  | stay hsearch _ ih => exact .stay hsearch (ih hplace)
  | up hsearch _ ih => exact .up hsearch (ih hplace)
  | down hfinds hchild _ ih => exact .down hfinds hchild (ih hplace)
  | last hfinds _ =>
    have hlink := hplace _ _ rfl hfinds.get?
    simp [Node.isLink] at hlink
  | meet hfinds _ => exact .meet hfinds fun _ => rfl

/-- A last name that is no link is found whether links there are followed or not. -/
theorem walk_eq_of_not_link {n : Node} (h : walk root false here names = .ok (.arrived place))
    (hplace : root.get? place = some n) (hn : n.isLink = false) :
    walk root true here names = .ok (.arrived place) := by
  rw [walk_eq_ok_iff] at h ⊢
  refine h.following fun place' n' heq hplace' => ?_
  obtain rfl := Walk.arrived.inj heq
  obtain rfl := Option.some.inj (hplace'.symm.trans hplace)
  exact hn

/-- Links on the way are met whether the last name is followed or not. -/
theorem walk_eq_of_atLink {directory : Location} (h : walk root false here names = .ok (.atLink directory target rest)) :
    walk root true here names = .ok (.atLink directory target rest) := by
  rw [walk_eq_ok_iff] at h ⊢
  exact h.following nofun

/-- A walk can be done in every tree that has the same directories and links. -/
theorem walk_of_keeps {root' : Node} {w : Walk} (hkeeps : root.Keeps root')
    (h : walk root followLast here names = .ok w) : walk root' followLast here names = .ok w := by
  rw [walk_eq_ok_iff] at h ⊢
  induction h with
  | arrive => exact .arrive
  | slash hdirectory _ ih =>
    obtain ⟨entries, hdirectory⟩ := Node.exists_directory_of_keeps hkeeps hdirectory
    exact .slash hdirectory ih
  | stay hsearch _ ih => exact .stay (hsearch.of_keeps hkeeps) ih
  | up hsearch _ ih => exact .up (hsearch.of_keeps hkeeps) ih
  | down hfinds hchild _ ih =>
    obtain ⟨child, hfinds, hlook⟩ := hfinds.of_keeps hkeeps
    exact .down hfinds (Node.isLink_eq_of_look_eq hlook ▸ hchild) ih
  | last hfinds hlast =>
    obtain ⟨child, hfinds, hlook⟩ := hfinds.of_keeps hkeeps
    exact .last (Node.look_eq_link_iff.1 hlook ▸ hfinds) hlast
  | meet hfinds hlast =>
    obtain ⟨child, hfinds, hlook⟩ := hfinds.of_keeps hkeeps
    exact .meet (Node.look_eq_link_iff.1 hlook ▸ hfinds) hlast

end Walks

end Machine
end CodeSnippets
