import CodeSnippets.Proofs.Walk
import Mathlib.Data.List.Forall2

/-!
# Looking up paths

What the system finds at the end of a path, and where.

* `Follows`, `follow_eq_ok_iff`: how links are followed, as a relation.
* `follow_append`: a path that goes on is followed from where the path before it has led.
* `follow_along`: where no link is on the way names alone say where a path leads.
* `WellFormed`: machines as they are, with directories where directories must be.
* `locate_text`, `status_eq_ok_iff`: what there is at a path.
* `status_eq_nullCharacter_iff`: the paths about which the system is not asked.
-/

namespace CodeSnippets

open Text

/-! ### Steps that may fail -/

section Failure

variable {ε ε' α β : Type} {x : Except ε α} {a : α} {b : β}

theorem bind_eq_ok_iff {f : α → Except ε β} : x >>= f = .ok b ↔ ∃ a, x = .ok a ∧ f a = .ok b := by
  cases x <;> simp [bind, Except.bind]

theorem bind_eq_error_iff {f : α → Except ε β} {e : ε} :
    x >>= f = .error e ↔ x = .error e ∨ ∃ a, x = .ok a ∧ f a = .error e := by
  cases x <;> simp [bind, Except.bind]

theorem mapError_eq_error_iff {f : ε → ε'} {e : ε'} : x.mapError f = .error e ↔ ∃ e', x = .error e' ∧ f e' = e := by
  cases x <;> simp [Except.mapError]

theorem mapError_eq_ok_iff {f : ε → ε'} : x.mapError f = .ok a ↔ x = .ok a := by
  cases x <;> simp [Except.mapError]

/-- Steps that are taken one after the other all succeed, each with its own result, or there is no result. -/
theorem mapM_eq_ok_iff {f : α → Except ε β} {as : List α} {bs : List β} :
    as.mapM f = .ok bs ↔ List.Forall₂ (fun a b => f a = .ok b) as bs := by
  induction as generalizing bs with
  | nil => cases bs <;> simp [pure, Except.pure]
  | cons a as ih =>
    rw [List.mapM_cons, bind_eq_ok_iff]
    constructor
    · rintro ⟨b, hb, h⟩
      obtain ⟨rest, hrest, h⟩ := bind_eq_ok_iff.1 h
      obtain rfl := Except.ok.inj h
      exact .cons hb (ih.1 hrest)
    · rintro (_ | ⟨hb, hrest⟩)
      exact ⟨_, hb, bind_eq_ok_iff.2 ⟨_, ih.2 hrest, rfl⟩⟩

theorem exists_mapM_eq_ok {f : α → Except ε β} {as : List α} (h : ∀ a ∈ as, ∃ b, f a = .ok b) :
    ∃ bs, as.mapM f = .ok bs := by
  induction as with
  | nil => exact ⟨[], rfl⟩
  | cons a as ih =>
    obtain ⟨⟨b, hb⟩, has⟩ := List.forall_mem_cons.1 h
    obtain ⟨bs, hbs⟩ := ih has
    exact ⟨b :: bs, mapM_eq_ok_iff.2 (.cons hb (mapM_eq_ok_iff.1 hbs))⟩

/-- If steps that are taken one after the other fail, one of them does. -/
theorem exists_mem_of_mapM_eq_error {f : α → Except ε β} {as : List α} {e : ε} (h : as.mapM f = .error e) :
    ∃ a ∈ as, f a = .error e := by
  induction as with
  | nil => cases h
  | cons a as ih =>
    rw [List.mapM_cons] at h
    rcases bind_eq_error_iff.1 h with h | ⟨b, -, h⟩
    · exact ⟨a, List.mem_cons_self, h⟩
    · rcases bind_eq_error_iff.1 h with h | ⟨bs, -, h⟩
      · obtain ⟨a, ha, h⟩ := ih h
        exact ⟨a, List.mem_cons_of_mem _ ha, h⟩
      · cases h

theorem mapM_congr {f g : α → Except ε β} {as : List α} (h : ∀ a ∈ as, f a = g a) : as.mapM f = as.mapM g := by
  induction as with
  | nil => rfl
  | cons a as ih =>
    obtain ⟨ha, has⟩ := List.forall_mem_cons.1 h
    rw [List.mapM_cons, List.mapM_cons, ha, ih has]

/-- A relation that settles the one side by the other relates two lists item by item. -/
theorem forall₂_iff_of_forall_mem {r : α → β → Prop} {holds : α → Prop} {f : α → β} {as : List α} {bs : List β}
    (h : ∀ a ∈ as, ∀ b, r a b ↔ holds a ∧ b = f a) :
    List.Forall₂ r as bs ↔ (∀ a ∈ as, holds a) ∧ bs = as.map f := by
  induction as generalizing bs with
  | nil => simp
  | cons a as ih =>
    obtain ⟨ha, has⟩ := List.forall_mem_cons.1 h
    rw [List.forall₂_cons_left_iff, List.forall_mem_cons, List.map_cons]
    constructor
    · rintro ⟨b, bs, hb, hbs, rfl⟩
      obtain ⟨hholds, rfl⟩ := (ha b).1 hb
      obtain ⟨hall, rfl⟩ := (ih has).1 hbs
      exact ⟨⟨hholds, hall⟩, rfl⟩
    · rintro ⟨⟨hholds, hall⟩, rfl⟩
      exact ⟨_, _, (ha _).2 ⟨hholds, rfl⟩, (ih has).2 ⟨hall, rfl⟩, rfl⟩

theorem exists_mem_of_forall₂ {r : α → β → Prop} {as : List α} {bs : List β} (h : List.Forall₂ r as bs) (ha : a ∈ as) :
    ∃ b ∈ bs, r a b := by
  induction h with
  | nil => cases ha
  | cons hr _ ih =>
    rcases List.mem_cons.1 ha with rfl | ha
    · exact ⟨_, List.mem_cons_self, hr⟩
    · obtain ⟨b, hb, h⟩ := ih ha
      exact ⟨b, List.mem_cons_of_mem _ hb, h⟩

end Failure

namespace Machine

section Follows

variable {root : Node} {followLast : Bool} {links : Nat} {here place : Location} {name : Text} {names rest : List Text}

/-! ### Following links -/

theorem follow_of_arrived (h : walk root followLast here names = .ok (.arrived place)) :
    follow root followLast links here names = .ok place := by
  rw [follow, h]

/-- How a path is followed to its end. -/
inductive Follows (root : Node) (followLast : Bool) : Nat → Location → List Text → Location → Prop
  /-- There is no link left to be followed. -/
  | arrive {links : Nat} {here place : Location} {names : List Text} :
      walk root followLast here names = .ok (.arrived place) → Follows root followLast links here names place
  /-- The names of a target come before those that are left. -/
  | through {links : Nat} {here directory place : Location} {target : Text} {names rest : List Text} :
      walk root followLast here names = .ok (.atLink directory target rest) →
        Follows root followLast links (if startsAtRoot target then [] else directory) (steps target ++ rest) place →
          Follows root followLast (links + 1) here names place

/-- A path is followed as its rules say. -/
theorem follow_eq_ok_iff :
    follow root followLast links here names = .ok place ↔ Follows root followLast links here names place := by
  constructor
  · intro h
    -- Each link that is followed is one less that may be.
    induction links generalizing here names with
    | zero =>
      rw [follow] at h
      split at h
      · cases h
      · rename_i hw
        obtain rfl := Except.ok.inj h
        exact .arrive hw
      · cases h
    | succ links ih =>
      rw [follow] at h
      split at h
      · cases h
      · rename_i hw
        obtain rfl := Except.ok.inj h
        exact .arrive hw
      · rename_i hw
        exact .through hw (ih h)
  · intro h
    induction h with
    | arrive hw => exact follow_of_arrived hw
    | through hw _ ih =>
      rw [follow, hw]
      exact ih

/-- Only the walk to the first link matters for where links lead. -/
theorem follow_congr {here' : Location} {names' : List Text}
    (h : walk root followLast here names = walk root followLast here' names') :
    follow root followLast links here names = follow root followLast links here' names' := by
  rw [follow, h, ← follow]

theorem walk_of_follow_eq_ok (h : follow root followLast links here names = .ok place) :
    ∃ w, walk root followLast here names = .ok w := by
  cases follow_eq_ok_iff.1 h with
  | arrive hw => exact ⟨_, hw⟩
  | through hw _ => exact ⟨_, hw⟩

/-- A path that goes on is followed from where the path before it has led. -/
theorem follow_append (h : follow root true links here names = .ok place) (hrest : rest ≠ []) :
    ∃ left, ∀ followLast, follow root followLast links here (names ++ rest) = follow root followLast left place rest := by
  rw [follow_eq_ok_iff] at h
  induction h with
  | arrive hw => exact ⟨_, fun _ => follow_congr (walk_append_of_arrived hw rest)⟩
  | through hw _ ih =>
    -- The names that come later stand behind those that the link leaves.
    obtain ⟨left, hleft⟩ := ih
    refine ⟨left, fun followLast => ?_⟩
    rw [follow, walk_append_of_atLink hw hrest, ← hleft followLast, List.append_assoc]

/-- Where no link is on the way a path that goes on is followed from where its names lead. -/
theorem follow_along (h : follow root followLast links here (names ++ rest) = .ok place)
    (hfree : ∀ init, init <+: names → ∀ n, root.get? (here.along init) = some n → n.isLink = false) :
    walk root true here names = .ok (.arrived (here.along names)) ∧
      follow root followLast links (here.along names) rest = .ok place := by
  obtain ⟨w, hw⟩ := walk_of_follow_eq_ok h
  have harrived := walk_along hw hfree
  exact ⟨harrived, by rw [← follow_congr (walk_append_of_arrived harrived rest), h]⟩

/-- A location leads to its node by name alone, unless the node is a link, since what is above a node is a directory. -/
theorem follow_append_of_get? {n : Node} (hnames : root.hasNames = true) (hget : root.get? here = some n)
    (hn : n.isLink = false) (h : follow root followLast links [] (here ++ rest) = .ok place) :
    walk root true [] here = .ok (.arrived here) ∧ follow root followLast links here rest = .ok place := by
  have hname := fun name hname => isPart_of_isName (Node.isName_of_get? hnames hget name hname)
  have halong {init : Location} (hinit : init <+: here) : Location.along [] init = init :=
    Location.along_eq_append [] (fun name hmem => (hname name (hinit.subset hmem)).1)
      fun hmem => (hname _ (hinit.subset hmem)).2 rfl
  have hwalk := follow_along h fun init hinit x hx => by
    rw [halong hinit] at hx
    by_cases heq : init = here
    · obtain rfl := Option.some.inj (hget.symm.trans (heq ▸ hx))
      exact hn
    · obtain ⟨entries, mode, hdirectory⟩ := Node.exists_directory_of_prefix hget hinit heq
      obtain rfl := Option.some.inj (hdirectory.symm.trans hx)
      rfl
  rwa [halong (List.prefix_refl here)] at hwalk

theorem follow_singleton_of_finds {child : Node} (h : root.Finds here name child) :
    follow root false links here [name] = .ok (here ++ [name]) := by
  apply follow_of_arrived
  rw [walk_eq_ok_iff]
  cases child with
  | link target => exact .last h rfl
  | _ => exact .down h rfl .arrive

/-- A last name that is not followed is found in the directory before it. -/
theorem finds_of_follow_singleton (h : follow root false links here [name] = .ok place) (hname : Path.IsPart name)
    (hdotDot : name ≠ dotDot) : ∃ child, root.Finds here name child ∧ place = here ++ [name] := by
  obtain ⟨w, hw⟩ := walk_of_follow_eq_ok h
  obtain ⟨child, hfinds⟩ := exists_finds_of_walk_cons hw hname hdotDot
  rw [follow_singleton_of_finds hfinds] at h
  exact ⟨child, hfinds, (Except.ok.inj h).symm⟩

/-- What is found under a last name that is not followed. -/
theorem follow_singleton (h : root.Searchable here) (hname : Path.IsPart name) (hdotDot : name ≠ dotDot) :
    follow root false links here [name] =
      if maxNameSize < Utf8.size name then .error .nameTooLong
      else if root.get? (here ++ [name]) = none then .error .noEntry
      else .ok (here ++ [name]) := by
  obtain ⟨entries, mode, hdirectory, hrun⟩ := h
  by_cases hsize : maxNameSize < Utf8.size name
  · rw [if_pos hsize, follow, walk, hdirectory]
    simp [hrun, hname.ne_nil, hname.ne_dot, hdotDot, hsize]
  · rw [if_neg hsize]
    cases hchild : root.get? (here ++ [name]) with
    | none =>
      have hnone : Named.get? entries name = none := by
        simpa [Node.get?_append, hdirectory, Node.get?_cons, Node.entries] using hchild
      rw [if_pos rfl, follow, walk, hdirectory]
      simp [hrun, hname.ne_nil, hname.ne_dot, hdotDot, hsize, hnone]
    | some child =>
      rw [if_neg (by simp)]
      exact follow_singleton_of_finds
        ⟨⟨entries, mode, hdirectory, hrun⟩, hchild, Nat.not_lt.1 hsize, hname.ne_nil, hname.ne_dot, hdotDot⟩

/-- A last name that is no link is found whether links there are followed or not. -/
theorem follow_eq_of_not_link {n : Node} (h : follow root false links here names = .ok place)
    (hplace : root.get? place = some n) (hn : n.isLink = false) : follow root true links here names = .ok place := by
  rw [follow_eq_ok_iff] at h ⊢
  induction h with
  | arrive hw => exact .arrive (walk_eq_of_not_link hw hplace hn)
  | through hw _ ih => exact .through (walk_eq_of_atLink hw) (ih hplace)

/-- What is found in a tree is found in every tree that has the same directories and links. -/
theorem follow_of_keeps {root' : Node} (hkeeps : root.Keeps root')
    (h : follow root followLast links here names = .ok place) : follow root' followLast links here names = .ok place := by
  rw [follow_eq_ok_iff] at h ⊢
  induction h with
  | arrive hw => exact .arrive (walk_of_keeps hkeeps hw)
  | through hw _ ih => exact .through (walk_of_keeps hkeeps hw) ih

end Follows

/-! ### Machines as they are -/

/-- The root is a directory, nodes have names that nodes can have, and the program stands in a directory. -/
structure WellFormed (m : Machine) : Prop where
  root_isDirectory : m.root.isDirectory = true
  hasNames : m.root.hasNames = true
  cwd_isDirectory : m.cwd.removed = 0 → ∃ n, m.root.get? m.cwd.location = some n ∧ n.isDirectory = true

/-- The place from which a path is followed. -/
def origin (m : Machine) (p : Path) : Location := if p.isAbsolute then [] else m.cwd.location

/-- The place from which a path is followed is there. -/
def HasOrigin (m : Machine) (p : Path) : Prop := p.isAbsolute = true ∨ m.cwd.removed = 0

/-- The system takes the text of a path, what it may lead to apart. -/
def Takes (p : Path) : Prop := '\x00' ∉ p.text ∧ Utf8.size p.text ≤ maxPathSize

variable {m : Machine} {p q : Path} {followLast : Bool}

theorem WellFormed.exists_origin (h : m.WellFormed) (horigin : m.HasOrigin p) :
    ∃ entries mode, m.root.get? (m.origin p) = some (.directory entries mode) := by
  have hdirectory : ∃ n, m.root.get? (m.origin p) = some n ∧ n.isDirectory = true := by
    rcases hp : p.isAbsolute with _ | _
    · rw [origin, hp]
      exact h.cwd_isDirectory (horigin.resolve_left (by simp [hp]))
    · rw [origin, hp]
      exact ⟨m.root, rfl, h.root_isDirectory⟩
  obtain ⟨n, hn, hdir⟩ := hdirectory
  cases n with
  | directory entries mode => exact ⟨entries, mode, hn⟩
  | _ => simp [Node.isDirectory] at hdir

theorem Takes.of_prefix (h : Takes p) {parts : List Text} (hparts : parts <+: p.parts)
    (hne : parts ≠ [] ∨ p.isAbsolute = true) : Takes { p with parts } :=
  have htext := Path.text_prefix_text hparts hne
  ⟨fun hnull => h.1 (htext.subset hnull), Nat.le_trans (Utf8.size_le_of_prefix htext) h.2⟩

theorem leave_of_removed_eq_zero {q : Position} (h : q.removed = 0) (names : List Text) :
    q.leave names = .ok (q, names) := by
  cases names with
  | nil => rfl
  | cons name names => rw [Position.leave, if_pos h]

/-- The position of a path: where the names of the path lead from its origin. -/
theorem locate_text (hp : p.IsRead) (horigin : m.HasOrigin p) :
    m.locate p.text followLast =
      if p.text.contains '\x00' then .error .nullCharacter
      else if maxPathSize < Utf8.size p.text then .error (.system .nameTooLong)
      else match follow m.root followLast maxLinks (m.origin p) p.steps with
        | .error errno => .error (.system errno)
        | .ok location => .ok { location } := by
  have hstart : (if startsAtRoot p.text then {} else m.cwd : Position) = { location := m.origin p } := by
    rw [Path.startsAtRoot_text hp, origin]
    rcases h : p.isAbsolute with _ | _
    · have hcwd := horigin.resolve_left (by simp [h])
      show m.cwd = { location := m.cwd.location }
      rw [← hcwd]
    · rfl
  have hnil : p.text.isEmpty = false := by simpa using Path.text_ne_nil hp
  rw [locate, hstart, Path.steps_text hp, leave_of_removed_eq_zero rfl, hnil]
  rfl

theorem locate_eq_ok_iff (hp : p.IsRead) (horigin : m.HasOrigin p) {position : Position} :
    m.locate p.text followLast = .ok position ↔ Takes p ∧ ∃ location,
      follow m.root followLast maxLinks (m.origin p) p.steps = .ok location ∧ position = { location } := by
  rw [locate_text hp horigin, Takes]
  by_cases hnull : '\x00' ∈ p.text
  · simp [hnull]
  by_cases hsize : maxPathSize < Utf8.size p.text
  · simp [hnull, hsize, Nat.not_le.2 hsize]
  rw [if_neg (by simpa using hnull), if_neg hsize]
  cases hfollow : follow m.root followLast maxLinks (m.origin p) p.steps with
  | error errno => simp
  | ok location => simp [hnull, Nat.not_lt.1 hsize, eq_comm]

/-- What there is at a path is what there is where the path leads. -/
theorem status_eq_ok_iff (hp : p.IsRead) (horigin : m.HasOrigin p) {n : Node} :
    m.status p.text followLast = .ok n ↔ Takes p ∧ ∃ location,
      follow m.root followLast maxLinks (m.origin p) p.steps = .ok location ∧ m.root.get? location = some n := by
  rw [status]
  cases hlocate : m.locate p.text followLast with
  | error e =>
    constructor
    · intro h
      cases h
    · rintro ⟨htakes, location, hfollow, -⟩
      rw [(locate_eq_ok_iff hp horigin).2 ⟨htakes, location, hfollow, rfl⟩] at hlocate
      cases hlocate
  | ok q =>
    obtain ⟨htakes, location, hfollow, rfl⟩ := (locate_eq_ok_iff hp horigin).1 hlocate
    have hnode : m.nodeAt? { location } = m.root.get? location := rfl
    simp only [bind, Except.bind, hnode]
    cases hn : m.root.get? location <;> simp [htakes, hfollow, hn]

theorem locate_eq_nullCharacter_iff {raw : Text} : m.locate raw followLast = .error .nullCharacter ↔ '\x00' ∈ raw := by
  unfold locate
  constructor
  · intro h
    split at h
    · rename_i hnull
      simpa using hnull
    · split at h
      · cases h
      · split at h
        · cases h
        · split at h
          · cases h
          · split at h
            · split at h <;> cases h
            · cases h
  · intro h
    rw [if_pos (by simpa using h)]

/-- The system is not asked about a path with a null character. -/
theorem status_eq_nullCharacter_iff {raw : Text} : m.status raw followLast = .error .nullCharacter ↔ '\x00' ∈ raw := by
  rw [status, ← locate_eq_nullCharacter_iff]
  cases m.locate raw followLast with
  | error e => simp [bind, Except.bind]
  | ok position => cases hn : m.nodeAt? position <;> simp [bind, Except.bind, hn]

theorem null_notMem_of_status {raw : Text} {n : Node} (h : m.status raw followLast = .ok n) : '\x00' ∉ raw := by
  intro hnull
  rw [status_eq_nullCharacter_iff.2 hnull] at h
  cases h

/-- What is found at a path is found whether links at its end are followed or not, unless it is a link. -/
theorem status_eq_of_not_link {raw : Text} {n : Node} (h : m.status raw false = .ok n) (hn : n.isLink = false) :
    m.status raw true = .ok n := by
  unfold status locate at h ⊢
  split at h
  · cases h
  rename_i hnull
  rw [if_neg hnull]
  split at h
  · cases h
  rename_i hnil
  rw [if_neg hnil]
  split at h
  · cases h
  rename_i hsize
  rw [if_neg hsize]
  split at h
  · cases h
  rename_i start names hleave
  split at h
  · rename_i hremoved
    rw [if_pos hremoved]
    cases hfollow : follow m.root false maxLinks start.location names with
    | error errno =>
      rw [hfollow] at h
      cases h
    | ok place =>
      rw [hfollow] at h
      -- The node is found in the same place.
      cases hplace : m.root.get? place with
      | none => simp [bind, Except.bind, nodeAt?, hplace] at h
      | some x =>
        obtain rfl : x = n := by simpa [bind, Except.bind, nodeAt?, hplace] using h
        rw [follow_eq_of_not_link hfollow hplace hn]
        exact h
  · rename_i hremoved
    rw [if_neg hremoved]
    exact h

/-- A question about what there is at a path has the answer yes if something of the kind is found there. -/
theorem probe_any_eq_ok_true_iff {kind : Node → Bool} :
    (m.probe p followLast).map (·.any kind) = .ok true ↔ ∃ n, m.status p.text followLast = .ok n ∧ kind n = true := by
  rw [probe]
  cases m.status p.text followLast with
  | ok n => simp [Except.map]
  | error e =>
    cases e with
    | nullCharacter => simp [Except.map]
    | system errno => cases h : errno.meansAbsent <;> simp [Except.map, h]

/-- The answer is no if nothing, or something else, is found. -/
theorem probe_any_eq_ok_false_iff {kind : Node → Bool} : (m.probe p followLast).map (·.any kind) = .ok false ↔
    m.status p.text followLast = .error .nullCharacter ∨
      (∃ errno, m.status p.text followLast = .error (.system errno) ∧ errno.meansAbsent = true) ∨
      ∃ n, m.status p.text followLast = .ok n ∧ kind n = false := by
  rw [probe]
  cases m.status p.text followLast with
  | ok n => simp [Except.map]
  | error e =>
    cases e with
    | nullCharacter => simp [Except.map]
    | system errno => cases h : errno.meansAbsent <;> simp [Except.map, h]

/-! ### Paths from the root -/

/-- For a path from the root it does not matter that the root itself is written as a slash. -/
theorem walk_steps (hm : m.WellFormed) (habsolute : p.isAbsolute = true) (followLast : Bool) :
    walk m.root followLast [] p.steps = walk m.root followLast [] p.parts := by
  rw [Path.steps]
  split
  · rename_i hparts
    obtain ⟨entries, mode, hdirectory⟩ := hm.exists_origin (p := p) (.inl habsolute)
    rw [origin, if_pos habsolute] at hdirectory
    rw [hparts, walk_nil_cons hdirectory]
  · rfl

/-- The names on the way to the working directory are names. -/
theorem WellFormed.isName_of_mem_cwd (hm : m.WellFormed) (hcwd : m.cwd.removed = 0) :
    ∀ name ∈ m.cwd.location, isName name = true := by
  obtain ⟨n, hn, -⟩ := hm.cwd_isDirectory hcwd
  exact Node.isName_of_get? hm.hasNames hn

/-- The path from the root has as its parts the names on the way that the parts of a path stand for. -/
theorem absolute_eq_ok (hm : m.WellFormed) (hp : p.IsRead) (h : m.absolute p = .ok q) :
    m.HasOrigin p ∧ q = ⟨if p.isAbsolute then p.anchor else .root, (m.origin p).along p.parts⟩ := by
  unfold absolute at h
  cases habsolute : p.isAbsolute with
  | true =>
    rw [habsolute, if_pos rfl] at h
    obtain rfl := Except.ok.inj h
    refine ⟨.inl habsolute, ?_⟩
    rw [Path.collapsed, habsolute, Path.collapseParts_eq_along hp, origin, habsolute]
    rfl
  | false =>
    rw [habsolute, if_neg Bool.false_ne_true, workingDirectory] at h
    by_cases hcwd : m.cwd.removed = 0
    · rw [if_pos hcwd] at h
      obtain rfl := Except.ok.inj h
      refine ⟨.inr hcwd, ?_⟩
      have hnames := hm.isName_of_mem_cwd hcwd
      -- The names of the working directory stand for themselves, so that only the parts of the path are worked out.
      have hlocation : Location.along [] m.cwd.location = m.cwd.location :=
        Location.along_eq_append [] (fun name hname => (isPart_of_isName (hnames name hname)).1)
          fun hmem => (isPart_of_isName (hnames _ hmem)).2 rfl
      have hparts : ∀ part ∈ m.cwd.location ++ p.parts, Path.IsPart part := fun part hpart =>
        (List.mem_append.1 hpart).elim (fun hname => (isPart_of_isName (hnames part hname)).1) (hp part)
      have hjoin : (⟨.root, m.cwd.location⟩ : Path).join p = ⟨.root, m.cwd.location ++ p.parts⟩ := by
        simp [Path.join, habsolute]
      rw [hjoin, Path.collapsed, origin, habsolute]
      show Path.mk .root (Path.collapseParts true _) = _
      rw [Path.collapseParts_eq_along hparts, Location.along_append, hlocation]
      rfl
    · rw [if_neg hcwd] at h
      cases h

end Machine
end CodeSnippets
