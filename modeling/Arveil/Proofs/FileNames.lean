import Mathlib.Data.List.TakeWhile
import Arveil.Lib.Path
import Arveil.Spec.Archive

/-! The names under which files that others sent are saved. Leading dots go before the
control characters do, so a control character in front of a dot brings the dot back to
the front. -/

namespace Arveil.FileNames

/-- What a name has to be to stand in a directory of downloads. -/
structure Sanitized (name : String) : Prop where
  nonempty : name ≠ ""
  bounded : name.length ≤ 120
  plain : ∀ c ∈ name.toList, c ≠ '/' ∧ c ≠ '\\' ∧ isControl c = false
  shown : name.toList.head? ≠ some '.'

/-- What is promised of the name that a descriptor is saved under. -/
structure Safe (d : FileDescriptor) : Prop where
  sanitized : Sanitized d.safeName
  again : FileDescriptor.safeName { d with name := d.safeName } = d.safeName
  archived : Archive.safeName d.name = d.safeName
  archivedAgain : Archive.safeName d.safeName = d.safeName
  inside : ∀ dir, Path.components (Path.join dir d.safeName.toList) =
    Path.components dir ++ [.normal d.safeName.toList]

def lastPiece (n : List Char) : List Char := (n.reverse.takeWhile fun c => c ≠ '/' && c ≠ '\\').reverse

def undotted (n : List Char) : List Char := (lastPiece n).dropWhile (· = '.')

def kept (n : List Char) : List Char := ((undotted n).filter fun c => !isControl c).take 120

/-- Behind the leading dots, the first character that is no control character is no dot. -/
def Shown (n : String) : Prop := (undotted n.toList).find? (fun c => !isControl c) ≠ some '.'

instance (n : String) : Decidable (Shown n) := inferInstanceAs (Decidable (_ ≠ _))

theorem safeName_eq (d : FileDescriptor) :
    d.safeName = if (kept d.name.toList).isEmpty then "file" else String.ofList (kept d.name.toList) := rfl

theorem not_separator_of_lastPiece {n : List Char} {c : Char} (h : c ∈ lastPiece n) : c ≠ '/' ∧ c ≠ '\\' := by
  have hc := List.mem_takeWhile_imp (List.mem_reverse.1 h)
  simpa using hc

theorem lastPiece_of_plain {n : List Char} (h : ∀ c ∈ n, c ≠ '/' ∧ c ≠ '\\') : lastPiece n = n := by
  have hall : ∀ c ∈ n.reverse, (c ≠ '/' && c ≠ '\\') = true := by
    intro c hc
    simpa using h c (List.mem_reverse.1 hc)
  unfold lastPiece
  rw [List.takeWhile_eq_self_iff.2 hall, List.reverse_reverse]

theorem mem_undotted {n : List Char} {c : Char} (h : c ∈ undotted n) : c ∈ lastPiece n :=
  (List.dropWhile_sublist _).subset h

theorem undotted_of_shown {n : List Char} (h : n.head? ≠ some '.') : n.dropWhile (· = '.') = n := by
  cases n with
  | nil => rfl
  | cons c n =>
    have hc : c ≠ '.' := fun he => h (by rw [he]; rfl)
    rw [List.dropWhile_cons_of_neg (by simpa using hc)]

theorem mem_kept {n : List Char} {c : Char} (h : c ∈ kept n) : c ≠ '/' ∧ c ≠ '\\' ∧ isControl c = false := by
  have hf := List.mem_of_mem_take h
  rw [List.mem_filter] at hf
  obtain ⟨hs, hb⟩ := not_separator_of_lastPiece (mem_undotted hf.1)
  exact ⟨hs, hb, by simpa using hf.2⟩

theorem kept_length (n : List Char) : (kept n).length ≤ 120 := by
  unfold kept
  rw [List.length_take]
  omega

theorem head_kept (n : List Char) : (kept n).head? = (undotted n).find? fun c => !isControl c := by
  unfold kept
  rw [List.head?_take, if_neg (by decide), List.head?_filter]

theorem shown_iff (n : String) : Shown n ↔ (kept n.toList).head? ≠ some '.' := by
  rw [head_kept]
  rfl

theorem kept_of_plain {n : List Char} (hplain : ∀ c ∈ n, c ≠ '/' ∧ c ≠ '\\' ∧ isControl c = false)
    (hlen : n.length ≤ 120) (hshown : n.head? ≠ some '.') : kept n = n := by
  have hcontrol : ∀ c ∈ n, (!isControl c) = true := fun c hc => by simp [(hplain c hc).2.2]
  unfold kept undotted
  rw [lastPiece_of_plain fun c hc => ⟨(hplain c hc).1, (hplain c hc).2.1⟩, undotted_of_shown hshown,
    List.filter_eq_self.2 hcontrol, List.take_of_length_le hlen]

theorem kept_of_sanitized {name : String} (h : Sanitized name) : kept name.toList = name.toList :=
  kept_of_plain h.plain h.bounded h.shown

theorem plain_of_sanitized {name : String} (h : Sanitized name) : Path.Plain name.toList where
  nonempty he := h.nonempty (String.toList_eq_nil_iff.1 he)
  noSeparator hc := (h.plain '/' hc).1 rfl
  noDot he := h.shown (by rw [he]; rfl)
  noDots he := h.shown (by rw [he]; rfl)

theorem file_chars : "file".toList = ['f', 'i', 'l', 'e'] := rfl

theorem sanitized_file : Sanitized "file" where
  nonempty := by decide
  bounded := by decide
  plain c hc := by
    simp only [file_chars, List.mem_cons, List.not_mem_nil, or_false] at hc
    rcases hc with rfl | rfl | rfl | rfl <;> decide
  shown := by rw [file_chars]; decide

theorem sanitized_iff (d : FileDescriptor) : Sanitized d.safeName ↔ Shown d.name := by
  rw [shown_iff, safeName_eq]
  by_cases he : kept d.name.toList = []
  · simp [he, sanitized_file]
  · have hne : ¬ (kept d.name.toList).isEmpty = true := by simpa using he
    rw [if_neg hne]
    constructor
    · intro h
      simpa using h.shown
    · intro hshown
      refine ⟨?_, ?_, ?_, ?_⟩
      · simpa using he
      · simpa using kept_length d.name.toList
      · simpa using fun c hc => mem_kept hc
      · simpa using hshown

/-- The name a file is saved under is safe exactly where no dot comes to the front when
the control characters go. -/
theorem safeName_safe_iff (d : FileDescriptor) : Safe d ↔ Shown d.name := by
  constructor
  · intro h
    exact (sanitized_iff d).1 h.sanitized
  · intro hshown
    have hsan := (sanitized_iff d).2 hshown
    have hagain : (if (kept d.safeName.toList).isEmpty then "file" else String.ofList (kept d.safeName.toList)) =
        d.safeName := by
      have hne : ¬ d.safeName.toList.isEmpty = true := by
        intro he
        exact (plain_of_sanitized hsan).nonempty (List.isEmpty_iff.1 he)
      rw [kept_of_sanitized hsan, if_neg hne, String.ofList_toList]
    exact ⟨hsan, hagain, rfl, hagain, fun dir => Path.components_join dir (plain_of_sanitized hsan)⟩

/-- A file that calls itself two dots behind a control character. -/
def disguised : FileDescriptor := ⟨1, [1], [2], [3], [4], [5], 0, "\x01..", "text/plain"⟩

theorem disguised_is_the_parent :
    disguised.safeName = ".." ∧
      Path.components (Path.join "downloads".toList disguised.safeName.toList) =
        [.normal "downloads".toList, .parentDir] ∧ ¬ Safe disguised := by
  have hname : disguised.safeName = ".." := by decide +kernel
  refine ⟨hname, by rw [hname]; decide +kernel, fun h => ?_⟩
  have hshown := h.sanitized.shown
  rw [hname] at hshown
  exact hshown (by decide +kernel)

end Arveil.FileNames
