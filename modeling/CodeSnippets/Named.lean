import CodeSnippets.Text.Basic

/-!
# Values by name

A list of names with their values, in the order in which the names were first given. Giving a name
again replaces its value and keeps its place.
-/

namespace CodeSnippets

/-- Values by name, in the order in which the names were first given. -/
abbrev Named (α : Type) := List (Text × α)

namespace Named

variable {α β : Type}

/-- The value of a name. -/
def get? (t : Named α) (name : Text) : Option α := (t.find? (·.1 = name)).map (·.2)

/-- Gives a name a value. A new name comes last, a known one keeps its place. -/
def put (t : Named α) (name : Text) (a : α) : Named α :=
  match t with
  | [] => [(name, a)]
  | (m, b) :: t => if m = name then (name, a) :: t else (m, b) :: put t name a

/-- The table without a name. -/
def erase (t : Named α) (name : Text) : Named α := t.filter (·.1 ≠ name)

/-- The names in order. -/
def names (t : Named α) : List Text := t.map (·.1)

/-- The table of a list in which a name may be given more than once. -/
def ofList (entries : List (Text × α)) : Named α := entries.foldl (fun t (n, a) => put t n a) []

/-- The entries in the order of their names. -/
def sorted (t : Named α) : Named α := t.mergeSort fun a b => Text.le a.1 b.1

@[simp] theorem get?_nil (name : Text) : get? ([] : Named α) name = none := rfl

theorem get?_cons (m : Text) (b : α) (t : Named α) (name : Text) :
    get? ((m, b) :: t) name = if m = name then some b else get? t name := by
  by_cases h : m = name <;> simp [get?, h]

/-- A name has the value that it was given last. -/
theorem get?_put (t : Named α) (name : Text) (a : α) (other : Text) :
    get? (put t name a) other = if name = other then some a else get? t other := by
  induction t with
  | nil => simp [put, get?_cons]
  | cons e t ih =>
    obtain ⟨m, b⟩ := e
    by_cases h : m = name
    · subst h
      by_cases h' : m = other <;> simp [put, get?_cons, h']
    · by_cases h' : m = other
      · subst h'
        simp [put, get?_cons, h, Ne.symm h]
      · simp [put, get?_cons, h, h', ih]

theorem get?_put_self (t : Named α) (name : Text) (a : α) : get? (put t name a) name = some a := by
  rw [get?_put, if_pos rfl]

/-- Of two values that are given to one name the second one stays. -/
theorem put_put (t : Named α) (name : Text) (a b : α) : put (put t name a) name b = put t name b := by
  induction t with
  | nil => simp [put]
  | cons e t ih =>
    obtain ⟨m, c⟩ := e
    by_cases h : m = name <;> simp [put, h, ih]

/-- A name that is given the value it has already leaves the table as it was. -/
theorem put_eq_self {t : Named α} {name : Text} {a : α} (h : t.get? name = some a) : put t name a = t := by
  induction t with
  | nil => simp at h
  | cons e t ih =>
    obtain ⟨m, c⟩ := e
    rw [get?_cons] at h
    by_cases hm : m = name
    · rw [if_pos hm, Option.some.injEq] at h
      simp [put, hm, h]
    · rw [if_neg hm] at h
      simp [put, hm, ih h]

/-- Giving a name a value adds the name at the end unless it is there already. -/
theorem names_put (t : Named α) (name : Text) (a : α) :
    (put t name a).names = if name ∈ t.names then t.names else t.names ++ [name] := by
  induction t with
  | nil => simp [put, names]
  | cons e t ih =>
    obtain ⟨m, b⟩ := e
    simp only [names] at ih
    by_cases h : m = name
    · simp [put, names, h]
    · by_cases h' : name ∈ t.map (·.1) <;> simp [put, names, h, Ne.symm h, ih, h']

theorem put_of_notMem {t : Named α} {name : Text} (h : name ∉ t.names) (a : α) : put t name a = t ++ [(name, a)] := by
  induction t with
  | nil => rfl
  | cons e t ih =>
    obtain ⟨m, b⟩ := e
    simp only [names, List.map_cons, List.mem_cons, not_or] at h
    rw [put, if_neg (Ne.symm h.1), ih h.2, List.cons_append]

theorem erase_of_notMem {t : Named α} {name : Text} (h : name ∉ t.names) : erase t name = t := by
  refine List.filter_eq_self.2 fun e he => ?_
  have hne : e.1 ≠ name := by
    rintro rfl
    exact h (List.mem_map.2 ⟨e, he, rfl⟩)
  simpa using hne

/-- A new name that is given a value and taken away again leaves the table as it was. -/
theorem erase_put {t : Named α} {name : Text} (h : name ∉ t.names) (a : α) : erase (put t name a) name = t := by
  have hrest : t.filter (·.1 ≠ name) = t := erase_of_notMem h
  have hlast : [(name, a)].filter (·.1 ≠ name) = [] := by simp
  rw [put_of_notMem h, erase, List.filter_append, hrest, hlast, List.append_nil]

/-- What a table holds once a name has been given a value was there before, or is the new entry. -/
theorem mem_put {t : Named α} {name : Text} {a : α} {e : Text × α} (h : e ∈ put t name a) : e = (name, a) ∨ e ∈ t := by
  induction t with
  | nil => simpa [put] using h
  | cons f t ih =>
    obtain ⟨m, b⟩ := f
    rw [put] at h
    split at h
    · rcases List.mem_cons.1 h with heq | h
      · exact .inl heq
      · exact .inr (List.mem_cons_of_mem _ h)
    · rcases List.mem_cons.1 h with rfl | h
      · exact .inr List.mem_cons_self
      · exact (ih h).imp_right (List.mem_cons_of_mem _)

theorem nodup_names_put {t : Named α} (h : t.names.Nodup) (name : Text) (a : α) : (put t name a).names.Nodup := by
  rw [names_put]
  split
  · exact h
  · rename_i hnew
    refine List.nodup_append.2 ⟨h, by simp, fun m hm n hn heq => hnew ?_⟩
    rw [← List.mem_singleton.1 hn, ← heq]
    exact hm

theorem mem_of_get?_eq_some {t : Named α} {name : Text} {a : α} (h : t.get? name = some a) : (name, a) ∈ t := by
  induction t with
  | nil => simp at h
  | cons e t ih =>
    obtain ⟨m, b⟩ := e
    rw [get?_cons] at h
    split at h
    · simp_all
    · exact List.mem_cons_of_mem _ (ih h)

/-- Where no name is given twice, the entries are the names with their values. -/
theorem get?_eq_some_iff_mem {t : Named α} (hnodup : t.names.Nodup) {name : Text} {a : α} :
    t.get? name = some a ↔ (name, a) ∈ t := by
  refine ⟨mem_of_get?_eq_some, fun h => ?_⟩
  induction t with
  | nil => simp at h
  | cons e t ih =>
    obtain ⟨m, b⟩ := e
    rw [names, List.map_cons, List.nodup_cons] at hnodup
    rw [get?_cons]
    rcases List.mem_cons.1 h with heq | hmem
    · obtain ⟨rfl, rfl⟩ := Prod.mk.inj heq
      simp
    · have hne : m ≠ name := by
        rintro rfl
        exact hnodup.1 (List.mem_map.2 ⟨_, hmem, rfl⟩)
      rw [if_neg hne, ih hnodup.2 hmem]

/-- The names are those that have a value. -/
theorem mem_names_iff {t : Named α} {name : Text} : name ∈ t.names ↔ ∃ a, t.get? name = some a := by
  induction t with
  | nil => simp [names]
  | cons e t ih =>
    obtain ⟨m, b⟩ := e
    rw [get?_cons]
    by_cases h : m = name
    · simp [names, h]
    · simpa [names, h, Ne.symm h] using ih

theorem get?_eq_none_iff {t : Named α} {name : Text} : t.get? name = none ↔ name ∉ t.names := by
  rw [mem_names_iff, Option.eq_none_iff_forall_ne_some, not_exists]

theorem get?_map (f : α → β) (t : Named α) (name : Text) :
    get? (t.map fun e => (e.1, f e.2)) name = (t.get? name).map f := by
  induction t with
  | nil => rfl
  | cons e t ih =>
    obtain ⟨m, b⟩ := e
    by_cases h : m = name <;> simp [get?_cons, h, ih]

theorem names_map (f : α → β) (t : Named α) : names (t.map fun e => (e.1, f e.2)) = t.names := by
  simp [names]

end Named
end CodeSnippets
