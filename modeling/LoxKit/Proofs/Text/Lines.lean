import LoxKit.Text.Lines
import Mathlib.Data.List.TakeWhile

/-!
# Two notions of line

A program counts its lines by line feeds alone (`feedLines`), a document shown by an editor has a
line for each ending of another sort as well.  Lines of the two are compared without the carriage
return that may stand in front of a line feed.  The first lines of a text are the same by either
notion exactly as long as none of them holds another character that ends a line
(`first_lines_agree_iff`).
-/
namespace LoxKit.Text

/-- The lines of a text that end with line feeds alone; behind the last feed there is one more. -/
def feedLines (cs : List Char) : List (List Char) := cs.splitOn '\n'

/-- A line without a carriage return at its end. -/
def withoutReturn (l : List Char) : List Char :=
  if l.getLast? = some '\r' then l.dropLast else l

/-- **A line that an editor shows as one**: but for a carriage return at its end it holds no
character that ends a line of a document. -/
def Unbroken (l : List Char) : Prop := ∀ c ∈ withoutReturn l, endsLine c = false

instance (l : List Char) : Decidable (Unbroken l) := List.decidableBAll _ _

/-- The texts of the lines of a document, and the empty one behind them. -/
def shownLines (cs : List Char) : List (List Char) := (Line.split cs).map (·.text) ++ [[]]

variable {l rest begun cs : List Char}

/-- There is one line more than line feeds. -/
theorem length_feedLines (cs : List Char) : (feedLines cs).length = cs.count '\n' + 1 := by
  unfold feedLines
  induction cs with
  | nil => rfl
  | cons c cs ih =>
    rw [List.splitOn_cons_eq_if_modifyHead]
    by_cases hc : c = '\n'
    · simp [hc, ih]
    · simp [hc, ih]

theorem feedLines_append (h : '\n' ∉ l) (rest : List Char) :
    feedLines (l ++ '\n' :: rest) = l :: feedLines rest :=
  List.splitOn_append_cons_self_of_not_mem h rest

/-- **Induction on a text line by line.** -/
theorem lines_induction {motive : List Char → Prop}
    (last : ∀ l, '\n' ∉ l → motive l)
    (feed : ∀ l rest, '\n' ∉ l → motive rest → motive (l ++ '\n' :: rest)) (cs : List Char) :
    motive cs := by
  induction h : cs.length using Nat.strongRecOn generalizing cs with
  | ind n ih =>
    by_cases hcs : '\n' ∈ cs
    · obtain ⟨l, rest, rfl, hl⟩ := List.eq_append_cons_of_mem hcs
      refine feed l rest hl (ih rest.length ?_ rest rfl)
      simp only [List.length_append, List.length_cons] at h
      omega
    · exact last cs hcs

/-- A line may have a carriage return at its end. -/
theorem eq_withoutReturn (l : List Char) : l = withoutReturn l ∨ l = withoutReturn l ++ ['\r'] := by
  unfold withoutReturn
  split
  · rename_i h
    obtain ⟨init, rfl⟩ := List.getLast?_eq_some_iff.mp h
    exact .inr (by simp)
  · exact .inl rfl

namespace Line

/-- Characters that end no line are taken together. -/
theorem splitBehind_append (h : ∀ c ∈ l, endsLine c = false) (begun cs : List Char) :
    splitBehind begun (l ++ cs) = splitBehind (l.reverse ++ begun) cs := by
  induction l generalizing begun with
  | nil => rfl
  | cons c l ih =>
    rw [List.forall_mem_cons] at h
    have hne : c ≠ '\r' := fun hc => by simp [hc, endsLine] at h
    rw [List.cons_append, splitBehind.eq_3 _ _ _ (fun _ hc => absurd hc hne), h.1,
      if_neg nofun, ih h.2]
    simp

/-- The text of a line of a document holds no character that ends a line. -/
theorem endsLine_of_mem_splitBehind (h : ∀ c ∈ begun, endsLine c = false) {w : Line}
    (hw : w ∈ splitBehind begun cs) : ∀ c ∈ w.text, endsLine c = false := by
  fun_induction splitBehind begun cs with
  | case1 => cases hw
  | case2 begun =>
    rw [List.mem_singleton.mp hw]
    simpa using h
  | case3 begun cs ih | case4 begun c cs _ _ ih =>
    rcases List.mem_cons.mp hw with rfl | hw
    · simpa using h
    · exact ih (List.forall_mem_nil _) hw
  | case5 begun c cs _ hc ih =>
    exact ih (List.forall_mem_cons.mpr ⟨by simpa using hc, h⟩) hw

/-- A line that is shown as one, with the line feed behind it. -/
theorem split_feed (h : Unbroken l) (rest : List Char) :
    ∃ ending, split (l ++ '\n' :: rest) = ⟨withoutReturn l, ending⟩ :: split rest := by
  have hl := eq_withoutReturn l
  unfold Unbroken at h
  generalize withoutReturn l = u at h hl ⊢
  rcases hl with rfl | rfl
  · refine ⟨['\n'], ?_⟩
    rw [split, splitBehind_append h]
    simp [splitBehind, endsLine, split]
  · refine ⟨['\r', '\n'], ?_⟩
    rw [split, List.append_assoc, splitBehind_append h]
    simp [splitBehind, split]

/-- The line behind the last line feed, if it is shown as one. -/
theorem split_last (h : Unbroken l) :
    split l = [] ∧ withoutReturn l = [] ∨ ∃ ending, split l = [⟨withoutReturn l, ending⟩] := by
  have hl := eq_withoutReturn l
  unfold Unbroken at h
  generalize withoutReturn l = u at h hl ⊢
  rcases hl with rfl | rfl
  · have hsplit := splitBehind_append h [] []
    rw [List.append_nil, List.append_nil] at hsplit
    rw [split, hsplit]
    cases l with
    | nil => exact .inl ⟨rfl, rfl⟩
    | cons c l => exact .inr ⟨[], by simp [splitBehind]⟩
  · refine .inr ⟨['\r'], ?_⟩
    rw [split, splitBehind_append h]
    simp [splitBehind, endsLine]

end Line

/-- Each line that is shown as one is shown as it is. -/
theorem first_lines_agree {n : Nat} (hn : n ≤ (feedLines cs).length)
    (h : ∀ l ∈ (feedLines cs).take n, Unbroken l) :
    (shownLines cs).take n = ((feedLines cs).take n).map withoutReturn := by
  induction cs using lines_induction generalizing n with
  | last l hl =>
    have hlines : feedLines l = [l] := List.splitOn_eq_singleton hl
    rw [hlines] at hn h ⊢
    match n with
    | 0 => rfl
    | 1 =>
      unfold shownLines
      rcases Line.split_last (h l List.mem_cons_self) with ⟨hsplit, hempty⟩ | ⟨ending, hsplit⟩
      · simp [hsplit, hempty]
      · simp [hsplit]
  | feed l rest hl ih =>
    rw [feedLines_append hl] at hn h ⊢
    match n with
    | 0 => rfl
    | n + 1 =>
      rw [List.take_succ_cons, List.forall_mem_cons] at h
      obtain ⟨ending, hsplit⟩ := Line.split_feed h.1 rest
      have hrest := ih (Nat.le_of_succ_le_succ hn) h.2
      unfold shownLines at hrest ⊢
      simp [hsplit, hrest]

/-- **The first lines of a text are the same by either notion** exactly if none of them holds a
character that ends a line of a document alone. -/
theorem first_lines_agree_iff {n : Nat} (hn : n ≤ (feedLines cs).length) :
    (shownLines cs).take n = ((feedLines cs).take n).map withoutReturn ↔
      ∀ l ∈ (feedLines cs).take n, Unbroken l := by
  refine ⟨fun h l hl c hc => ?_, first_lines_agree hn⟩
  have hshown : withoutReturn l ∈ shownLines cs :=
    List.mem_of_mem_take (h ▸ List.mem_map_of_mem hl)
  rcases List.mem_append.mp hshown with hshown | hshown
  · obtain ⟨w, hw, htext⟩ := List.mem_map.mp hshown
    exact Line.endsLine_of_mem_splitBehind (List.forall_mem_nil _) hw c (htext ▸ hc)
  · rw [List.mem_singleton.mp hshown] at hc
    cases hc

end LoxKit.Text
