import Mathlib.Data.List.Basic

/-! Paths as texts and their components, as `std::path` has them on Unix: empty pieces are
skipped, a dot counts as the first piece only, and an absolute path replaces what it is
joined to. -/

namespace Arveil.Path

inductive Component where
  | rootDir
  | curDir
  | parentDir
  | normal (name : List Char)
deriving DecidableEq, Repr

def later (name : List Char) : Option Component :=
  if name = [] ∨ name = ['.'] then none
  else if name = ['.', '.'] then some .parentDir
  else some (.normal name)

def first (name : List Char) (rest : List (List Char)) : Option Component :=
  if name = [] then (if rest = [] then none else some .rootDir)
  else if name = ['.'] then some .curDir
  else later name

def components (path : List Char) : List Component :=
  match path.splitOn '/' with
  | [] => []
  | name :: rest => (first name rest).toList ++ rest.filterMap later

def join (dir name : List Char) : List Char :=
  if name.head? = some '/' then name
  else if dir = [] ∨ dir.getLast? = some '/' then dir ++ name
  else dir ++ '/' :: name

/-- A name of one file: no separator in it, and no way to this directory or its parent. -/
structure Plain (name : List Char) : Prop where
  nonempty : name ≠ []
  noSeparator : '/' ∉ name
  noDot : name ≠ ['.']
  noDots : name ≠ ['.', '.']

theorem Plain.later_eq {name : List Char} (h : Plain name) : later name = some (.normal name) := by
  unfold later
  rw [if_neg (not_or.2 ⟨h.nonempty, h.noDot⟩), if_neg h.noDots]

theorem Plain.first_eq {name : List Char} (h : Plain name) (rest : List (List Char)) :
    first name rest = some (.normal name) := by
  unfold first
  rw [if_neg h.nonempty, if_neg h.noDot, h.later_eq]

theorem later_nil : later [] = none := rfl

theorem components_append {path piece : List Char} (hpath : path ≠ []) (hpiece : '/' ∉ piece) :
    components (path ++ '/' :: piece) = components path ++ (later piece).toList := by
  have hsplit : (path ++ '/' :: piece).splitOn '/' = path.splitOn '/' ++ [piece] := by
    rw [List.splitOn_append_cons_self, List.splitOn_eq_singleton hpiece]
  unfold components
  rw [hsplit]
  cases hp : path.splitOn '/' with
  | nil => exact absurd hp (List.splitOn_ne_nil _ _)
  | cons name rest =>
    have hfirst : first name (rest ++ [piece]) = first name rest := by
      unfold first
      by_cases hname : name = []
      · -- a path that starts with an empty piece has another one, or it is empty
        have hrest : rest ≠ [] := by
          rintro rfl
          apply hpath
          have hjoin : List.intercalate ['/'] (path.splitOn '/') = path := List.intercalate_splitOn '/'
          rw [← hjoin, hp, hname]
          rfl
        simp [hname, hrest]
      · rw [if_neg hname, if_neg hname]
    simp only [List.cons_append, hfirst, List.filterMap_append, List.append_assoc]
    congr 2

theorem components_slash {path : List Char} (hpath : path ≠ []) : components (path ++ ['/']) = components path := by
  rw [components_append hpath List.not_mem_nil, later_nil]
  simp

theorem components_join (dir : List Char) {name : List Char} (h : Plain name) :
    components (join dir name) = components dir ++ [.normal name] := by
  have hhead : name.head? ≠ some '/' := by
    intro he
    obtain ⟨rest, rfl⟩ := List.head?_eq_some_iff.1 he
    exact h.noSeparator List.mem_cons_self
  have hone : components name = [.normal name] := by
    unfold components
    rw [List.splitOn_eq_singleton h.noSeparator]
    simp [h.first_eq]
  unfold join
  rw [if_neg hhead]
  by_cases hdir : dir = []
  · subst hdir
    rw [if_pos (Or.inl rfl), List.nil_append, hone]
    rfl
  · by_cases hslash : dir.getLast? = some '/'
    · obtain ⟨front, rfl⟩ := List.getLast?_eq_some_iff.1 hslash
      rw [if_pos (Or.inr hslash), List.append_assoc, List.singleton_append]
      by_cases hfront : front = []
      · subst hfront
        have hroot : components ['/'] = [.rootDir] := by decide
        have hsplit : ('/' :: name).splitOn '/' = [[], name] := by
          rw [← List.nil_append ('/' :: name), List.splitOn_append_cons_self, List.splitOn_eq_singleton h.noSeparator]
          rfl
        rw [List.nil_append, List.nil_append, hroot]
        unfold components
        rw [hsplit]
        simp [first, h.later_eq]
      · rw [components_append hfront h.noSeparator, components_slash hfront, h.later_eq]
        rfl
    · rw [if_neg (not_or.2 ⟨hdir, hslash⟩), components_append hdir h.noSeparator, h.later_eq]
      rfl

end Arveil.Path
