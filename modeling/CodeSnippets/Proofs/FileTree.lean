import CodeSnippets.Machine.Node
import CodeSnippets.Path

/-!
# Laws of file trees

What is found in a tree at a location, and what is left of a tree when a node is put somewhere or taken away.

* `get?_append`, `exists_directory_of_prefix`: what lies on the way to a node.
* `hasNames`, `isName_of_get?`: trees in which every node has a name that a path can write.
* `hasDistinctNames`, `nodup_names_of_get?`: trees in which no directory has two nodes of one name.
* `remove_put`, `put_put`, `remove_of_get?_eq_none`: a node that comes and goes leaves no trace.
* `get?_put_self`, `get?_put_of_apart`: where a node that has been put into a tree is found, and where it is not.
* `keeps_put`: a file that is put into a tree leaves all directories and links in their places.
-/

namespace CodeSnippets

open Text

/-- A name that a node can have: it is not empty, none of the two names that every directory has for itself and for
the one above, and holds neither a slash nor a null character. -/
def isName (t : Text) : Bool := !t.isEmpty && t ≠ dot && t ≠ dotDot && !t.contains '/' && !t.contains '\x00'

namespace Node

mutual

/-- Every node of the tree has a name that a node can have. -/
def hasNames : Node → Bool
  | .directory entries _ => haveNames entries
  | _ => true

/-- The same for the nodes of a directory. -/
def haveNames : List (Text × Node) → Bool
  | [] => true
  | (name, n) :: entries => isName name && hasNames n && haveNames entries

end

mutual

/-- No directory of the tree has two nodes of one name. -/
def hasDistinctNames : Node → Bool
  | .directory entries _ => decide (Named.names entries).Nodup && haveDistinctNames entries
  | _ => true

/-- The same for the directories among nodes, and below them. -/
def haveDistinctNames : List (Text × Node) → Bool
  | [] => true
  | (_, n) :: entries => hasDistinctNames n && haveDistinctNames entries

end

variable {n x y new : Node} {name : Text} {l l' parent : Location} {entries : Named Node} {mode : Nat}

/-! ### The way to a node -/

theorem get?_cons_eq_some_iff : n.get? (name :: l) = some x ↔ ∃ entries mode child,
    n = .directory entries mode ∧ Named.get? entries name = some child ∧ child.get? l = some x := by
  rw [get?_cons]
  cases n <;> simp [Node.entries, Option.bind_eq_some_iff]

theorem get?_singleton (h : n.entries.get? name = some x) : n.get? [name] = some x := by
  rw [get?_cons, h]
  rfl

theorem get?_append (n : Node) (l l' : Location) : n.get? (l ++ l') = (n.get? l).bind (·.get? l') := by
  induction l generalizing n with
  | nil => rfl
  | cons name l ih =>
    rw [List.cons_append, get?_cons, get?_cons, Option.bind_assoc]
    exact congrArg (Option.bind _) (funext fun child => ih child)

theorem get?_append_singleton_eq_some_iff : n.get? (l ++ [name]) = some x ↔ ∃ entries mode,
    n.get? l = some (.directory entries mode) ∧ Named.get? entries name = some x := by
  rw [get?_append, Option.bind_eq_some_iff]
  constructor
  · rintro ⟨y, hy, hx⟩
    obtain ⟨entries, mode, child, rfl, hchild, hget⟩ := get?_cons_eq_some_iff.1 hx
    exact ⟨entries, mode, hy, hchild.trans hget⟩
  · rintro ⟨entries, mode, hl, hx⟩
    exact ⟨_, hl, get?_cons_eq_some_iff.2 ⟨entries, mode, x, rfl, hx, rfl⟩⟩

/-- What lies above a node is a directory. -/
theorem exists_directory_of_prefix (hx : n.get? l = some x) (habove : l' <+: l) (hne : l' ≠ l) :
    ∃ entries mode, n.get? l' = some (.directory entries mode) := by
  obtain ⟨rest, rfl⟩ := habove
  cases rest with
  | nil => simp at hne
  | cons name rest =>
    rw [get?_append, Option.bind_eq_some_iff] at hx
    obtain ⟨y, hy, hrest⟩ := hx
    obtain ⟨entries, mode, -, rfl, -⟩ := get?_cons_eq_some_iff.1 hrest
    exact ⟨entries, mode, hy⟩

/-- The directory above a node, or the root, is a directory again. -/
theorem exists_directory_dropLast (hroot : n.isDirectory = true) (hx : n.get? l = some x) :
    ∃ entries mode, n.get? l.dropLast = some (.directory entries mode) := by
  by_cases hl : l = []
  · subst hl
    cases n with
    | directory entries mode => exact ⟨entries, mode, rfl⟩
    | _ => simp [isDirectory] at hroot
  · refine exists_directory_of_prefix hx (List.dropLast_prefix l) fun h => ?_
    have := congrArg List.length h
    rw [List.length_dropLast] at this
    have := List.length_pos_iff.2 hl
    omega

/-- What each directory hands down to its nodes comes to all nodes below it. -/
theorem of_get? {P : Node → Prop} (hdown : ∀ {entries mode name child}, P (.directory entries mode) →
    Named.get? entries name = some child → P child) (h : P n) (hx : n.get? l = some x) : P x := by
  induction l generalizing n with
  | nil =>
    obtain rfl := Option.some.inj hx
    exact h
  | cons name l ih =>
    obtain ⟨entries, mode, child, rfl, hchild, hget⟩ := get?_cons_eq_some_iff.1 hx
    exact ih (hdown h hchild) hget

theorem haveNames_get? {child : Node} (h : haveNames entries = true) (hchild : Named.get? entries name = some child) :
    isName name = true ∧ child.hasNames = true := by
  induction entries with
  | nil => simp at hchild
  | cons e entries ih =>
    obtain ⟨other, x⟩ := e
    simp only [haveNames, Bool.and_eq_true] at h
    rw [Named.get?_cons] at hchild
    split at hchild
    · rename_i heq
      obtain rfl := Option.some.inj hchild
      exact ⟨heq ▸ h.1.1, h.1.2⟩
    · exact ih h.2 hchild

/-- On the way to a node there are names only. -/
theorem isName_of_get? (h : n.hasNames = true) (hx : n.get? l = some x) : ∀ name ∈ l, isName name = true := by
  induction l generalizing n with
  | nil => simp
  | cons name l ih =>
    obtain ⟨entries, mode, child, rfl, hchild, hget⟩ := get?_cons_eq_some_iff.1 hx
    obtain ⟨hname, hnames⟩ := haveNames_get? (by simpa [hasNames] using h) hchild
    exact List.forall_mem_cons.2 ⟨hname, ih hnames hget⟩

theorem haveDistinctNames_get? {child : Node} (h : haveDistinctNames entries = true)
    (hchild : Named.get? entries name = some child) : child.hasDistinctNames = true := by
  induction entries with
  | nil => simp at hchild
  | cons e entries ih =>
    obtain ⟨other, x⟩ := e
    simp only [haveDistinctNames, Bool.and_eq_true] at h
    rw [Named.get?_cons] at hchild
    split at hchild
    · obtain rfl := Option.some.inj hchild
      exact h.1
    · exact ih h.2 hchild

theorem hasDistinctNames_of_get? (h : n.hasDistinctNames = true) (hx : n.get? l = some x) :
    x.hasDistinctNames = true := by
  refine of_get? (P := (·.hasDistinctNames = true)) (fun hnode hchild => ?_) h hx
  simp only [hasDistinctNames, Bool.and_eq_true] at hnode
  exact haveDistinctNames_get? hnode.2 hchild

theorem nodup_names_of_get? (h : n.hasDistinctNames = true) (hx : n.get? l = some (.directory entries mode)) :
    entries.names.Nodup := by
  have hdirectory := hasDistinctNames_of_get? h hx
  simp only [hasDistinctNames, Bool.and_eq_true, decide_eq_true_eq] at hdirectory
  exact hdirectory.1

/-! ### Putting and removing nodes -/

theorem put_directory_cons {child : Node} (hchild : Named.get? entries name = some child) (hl : l ≠ []) :
    (Node.directory entries mode).put new (name :: l) =
      .directory (Named.put entries name (child.put new l)) mode := by
  cases l with
  | nil => exact absurd rfl hl
  | cons next l => simp only [put, hchild]

/-- Nothing is put below a name that there is not. -/
theorem put_directory_cons_of_eq_none (hnone : Named.get? entries name = none) (hl : l ≠ []) :
    (Node.directory entries mode).put new (name :: l) = .directory entries mode := by
  cases l with
  | nil => exact absurd rfl hl
  | cons next l => simp only [put, hnone]

theorem remove_directory_cons {child : Node} (hchild : Named.get? entries name = some child) (hl : l ≠ []) :
    (Node.directory entries mode).remove (name :: l) =
      .directory (Named.put entries name (child.remove l)) mode := by
  cases l with
  | nil => exact absurd rfl hl
  | cons next l => simp only [remove, hchild]

/-- A node that has been put into a directory is found there. -/
theorem get?_put_self (new : Node) (hparent : n.get? parent = some (.directory entries mode)) (name : Text) :
    (n.put new (parent ++ [name])).get? (parent ++ [name]) = some new := by
  induction parent generalizing n with
  | nil =>
    obtain rfl := Option.some.inj hparent
    show (Node.directory (Named.put entries name new) mode).get? [name] = some new
    exact get?_cons_eq_some_iff.2 ⟨_, _, new, rfl, Named.get?_put_self _ _ _, rfl⟩
  | cons next parent ih =>
    obtain ⟨_, _, child, rfl, hchild, hget⟩ := get?_cons_eq_some_iff.1 hparent
    rw [List.cons_append, put_directory_cons hchild (by simp)]
    exact get?_cons_eq_some_iff.2 ⟨_, _, _, rfl, Named.get?_put_self _ _ _, ih hget⟩

/-- A node with a new name that is put into a directory and removed again leaves no trace. -/
theorem remove_put (new : Node) (hparent : n.get? parent = some (.directory entries mode))
    (hname : name ∉ entries.names) : (n.put new (parent ++ [name])).remove (parent ++ [name]) = n := by
  induction parent generalizing n with
  | nil =>
    obtain rfl := Option.some.inj hparent
    show Node.directory (Named.erase (Named.put entries name new) name) mode = _
    rw [Named.erase_put hname]
  | cons next parent ih =>
    obtain ⟨es, _, child, rfl, hchild, hget⟩ := get?_cons_eq_some_iff.1 hparent
    -- The directory on the way is replaced twice, the second time by itself.
    have hput := Named.get?_put_self es next (child.put new (parent ++ [name]))
    rw [List.cons_append, put_directory_cons hchild (by simp), remove_directory_cons hput (by simp), ih hget,
      Named.put_put, Named.put_eq_self hchild]

/-- Of two nodes that are put at one location the second one stays. -/
theorem put_put (n a b : Node) (l : Location) : (n.put a l).put b l = n.put b l := by
  induction l generalizing n with
  | nil => rfl
  | cons name l ih =>
    cases n with
    | directory entries mode =>
      by_cases hl : l = []
      · subst hl
        show Node.directory (Named.put (Named.put entries name a) name b) mode = _
        rw [Named.put_put]
        rfl
      · cases hchild : Named.get? entries name with
        | none => rw [put_directory_cons_of_eq_none hchild hl, put_directory_cons_of_eq_none hchild hl]
        | some child =>
          rw [put_directory_cons hchild hl, put_directory_cons (Named.get?_put_self entries name _) hl,
            put_directory_cons hchild hl, ih, Named.put_put]
    | _ => simp [put]

/-- There is nothing to remove where there is nothing. -/
theorem remove_of_get?_eq_none (h : n.get? l = none) : n.remove l = n := by
  induction l generalizing n with
  | nil => simp at h
  | cons name l ih =>
    cases n with
    | directory entries mode =>
      rw [get?_cons, Option.bind_eq_none_iff] at h
      by_cases hl : l = []
      · subst hl
        have hnone : Named.get? entries name = none := by
          rw [Option.eq_none_iff_forall_ne_some]
          exact fun child hchild => by simpa using h child hchild
        show Node.directory (Named.erase entries name) mode = _
        rw [Named.erase_of_notMem (Named.get?_eq_none_iff.1 hnone)]
      · cases hchild : Named.get? entries name with
        | none =>
          obtain ⟨next, rest, rfl⟩ := List.exists_cons_of_ne_nil hl
          simp [remove, hchild]
        | some child => rw [remove_directory_cons hchild hl, ih (h child hchild), Named.put_eq_self hchild]
    | _ => cases l <;> simp [remove]

/-- Where two locations lie apart, a node that is put at the one leaves the other alone. -/
theorem get?_put_of_apart (n new : Node) (h : ¬ l <+: l') (h' : ¬ l' <+: l) : (n.put new l).get? l' = n.get? l' := by
  induction l generalizing n l' with
  | nil => exact absurd List.nil_prefix h
  | cons name l ih =>
    cases l' with
    | nil => exact absurd List.nil_prefix h'
    | cons other l' =>
      cases n with
      | directory entries mode =>
        rw [List.cons_prefix_cons, not_and] at h h'
        -- Where the first names differ another child is asked; where they agree the rest of the locations lies apart.
        by_cases hl : l = []
        · subst hl
          have hne : name ≠ other := fun heq => h heq List.nil_prefix
          show (Node.directory (Named.put entries name new) mode).get? (other :: l') = _
          rw [get?_cons, get?_cons]
          simp [Node.entries, Named.get?_put, hne]
        · cases hchild : Named.get? entries name with
          | none => rw [put_directory_cons_of_eq_none hchild hl]
          | some child =>
            rw [put_directory_cons hchild hl, get?_cons, get?_cons]
            by_cases heq : name = other
            · subst heq
              simp [Node.entries, Named.get?_put, hchild, ih child (h rfl) (h' rfl)]
            · simp [Node.entries, Named.get?_put, heq]
      | _ => simp [put]

/-! ### Trees with the same directories and links -/

/-- What a walk through a tree can tell about a node. -/
inductive Look where
  | directory (mode : Nat)
  | link (target : Text)
  | other
deriving DecidableEq, Repr

/-- What a walk through a tree can tell about the node. -/
def look : Node → Look
  | .directory _ mode => .directory mode
  | .link target => .link target
  | _ => .other

/-- Every node of `n` is in `n'` as well, as far as a walk can tell. -/
def Keeps (n n' : Node) : Prop := ∀ l x, n.get? l = some x → ∃ y, n'.get? l = some y ∧ y.look = x.look

theorem look_eq_directory_iff : n.look = .directory mode ↔ ∃ entries, n = .directory entries mode := by
  cases n <;> simp [look]

theorem look_eq_link_iff {target : Text} : n.look = .link target ↔ n = .link target := by
  cases n <;> simp [look]

theorem isLink_eq_of_look_eq {n' : Node} (h : n.look = n'.look) : n.isLink = n'.isLink := by
  cases n <;> cases n' <;> simp_all [look, isLink]

/-- A file that is put where there has been nothing, or a file, leaves all directories and links in their places. -/
theorem keeps_put (hnew : new.look = .other) (hparent : n.get? parent = some (.directory entries mode))
    (hold : ∀ x, Named.get? entries name = some x → x.look = .other) : n.Keeps (n.put new (parent ++ [name])) := by
  intro l x hx
  induction parent generalizing n l with
  | nil =>
    obtain rfl := Option.some.inj hparent
    cases l with
    | nil =>
      obtain rfl := Option.some.inj hx
      exact ⟨_, rfl, rfl⟩
    | cons other l =>
      obtain ⟨_, _, child, heq, hchild, hget⟩ := get?_cons_eq_some_iff.1 hx
      obtain ⟨rfl, rfl⟩ := Node.directory.inj heq
      by_cases hname : name = other
      · subst hname
        -- There was a file before, below which there is nothing to be found.
        cases l with
        | nil =>
          obtain rfl := Option.some.inj hget
          exact ⟨new, get?_cons_eq_some_iff.2 ⟨_, _, new, rfl, Named.get?_put_self _ _ _, rfl⟩,
            hnew.trans (hold child hchild).symm⟩
        | cons next l =>
          obtain ⟨_, _, -, rfl, -⟩ := get?_cons_eq_some_iff.1 hget
          exact absurd (hold _ hchild) (by simp [look])
      · refine ⟨x, get?_cons_eq_some_iff.2 ⟨_, _, child, rfl, ?_, hget⟩, rfl⟩
        rw [Named.get?_put, if_neg hname, hchild]
  | cons next parent ih =>
    obtain ⟨es, md, child, rfl, hchild, hdirectory⟩ := get?_cons_eq_some_iff.1 hparent
    rw [List.cons_append, put_directory_cons hchild (by simp)]
    cases l with
    | nil =>
      obtain rfl := Option.some.inj hx
      exact ⟨_, rfl, rfl⟩
    | cons other l =>
      obtain ⟨_, _, child', heq, hchild', hget⟩ := get?_cons_eq_some_iff.1 hx
      obtain ⟨rfl, rfl⟩ := Node.directory.inj heq
      by_cases hname : next = other
      · subst hname
        obtain rfl := Option.some.inj (hchild.symm.trans hchild')
        obtain ⟨y, hy, hlook⟩ := ih hdirectory l hget
        exact ⟨y, get?_cons_eq_some_iff.2 ⟨_, _, _, rfl, Named.get?_put_self _ _ _, hy⟩, hlook⟩
      · refine ⟨x, get?_cons_eq_some_iff.2 ⟨_, _, child', rfl, ?_, hget⟩, rfl⟩
        rw [Named.get?_put, if_neg hname, hchild']

/-- A file that is put where there has been nothing, or a file, is found there and nowhere else. -/
theorem get?_put_of_leaf (hnew : new.look = .other) (hparent : n.get? parent = some (.directory entries mode))
    (hold : ∀ x, Named.get? entries name = some x → x.look = .other) (h : ¬ l <+: parent ++ [name]) :
    (n.put new (parent ++ [name])).get? l = n.get? l := by
  by_cases hbelow : parent ++ [name] <+: l
  · -- There is nothing below a file.
    have hnone {root x : Node} (hx : root.get? (parent ++ [name]) = some x) (hlook : x.look = .other) :
        root.get? l = none := by
      rw [Option.eq_none_iff_forall_ne_some]
      intro y hy
      obtain ⟨es, md, hdirectory⟩ := exists_directory_of_prefix hy hbelow (fun heq => h (heq ▸ List.prefix_refl _))
      obtain rfl := Option.some.inj (hx.symm.trans hdirectory)
      simp [look] at hlook
    rw [hnone (get?_put_self new hparent name) hnew]
    cases hx : n.get? (parent ++ [name]) with
    | none =>
      obtain ⟨rest, rfl⟩ := hbelow
      rw [get?_append, hx]
      rfl
    | some x =>
      obtain ⟨es, md, hdirectory, hentry⟩ := get?_append_singleton_eq_some_iff.1 hx
      obtain ⟨rfl, rfl⟩ := Node.directory.inj (Option.some.inj (hparent.symm.trans hdirectory))
      rw [hnone hx (hold x hentry)]
  · exact get?_put_of_apart n new hbelow h

end Node
end CodeSnippets
