import Mathlib.Tactic.MkIffOfInductiveProp
import WireSchema.Text.Blank

/-!
# Lines of a text

A text whose lines do not end in white space is cut at its line feeds and nowhere
else.
-/

namespace WireSchema.Text

/-- No line holds a line feed. -/
theorem lineFeed_notMem_of_mem_lines {cs line : List Char} (h : line ∈ lines cs) :
    '\n' ∉ line := by
  fun_induction lines cs generalizing line with
  | case1 => cases h
  | case2 rest ih =>
    rcases List.mem_cons.mp h with rfl | hlater
    · exact List.not_mem_nil
    · exact ih hlater
  | case3 rest ih =>
    rcases List.mem_cons.mp h with rfl | hlater
    · exact List.not_mem_nil
    · exact ih hlater
  | case4 c rest hfeed hreturn hnil ih =>
    rcases List.mem_singleton.mp h with rfl
    intro hmem
    exact hfeed (List.mem_singleton.mp hmem).symm
  | case5 c rest hfeed hreturn first later hlines ih =>
    rw [hlines] at ih
    rcases List.mem_cons.mp h with rfl | hlater
    · intro hmem
      rcases List.mem_cons.mp hmem with heq | hmem
      · exact hfeed heq.symm
      · exact ih List.mem_cons_self hmem
    · exact ih (List.mem_cons_of_mem first hlater)

/-- The text does not end in a line feed, and none of its lines ends in white space. -/
@[mk_iff]
structure TrimmedLines (cs : List Char) : Prop where
  ends : cs.getLast? ≠ some '\n'
  trimmed : ∀ line ∈ cs.splitOn '\n', line.getLast?.any isBlank = false

instance (cs : List Char) : Decidable (TrimmedLines cs) :=
  decidable_of_iff' _ (trimmedLines_iff ..)

theorem splitOn_lineFeed_cons (rest : List Char) :
    ('\n' :: rest).splitOn '\n' = [] :: rest.splitOn '\n' := by
  rw [List.splitOn_cons_eq_if_modifyHead]
  rfl

theorem splitOn_cons_of_ne {c : Char} (hc : c ≠ '\n') {rest line : List Char}
    {later : List (List Char)} (hrest : rest.splitOn '\n' = line :: later) :
    (c :: rest).splitOn '\n' = (c :: line) :: later := by
  rw [List.splitOn_cons_eq_if_modifyHead, if_neg (by simpa using hc), hrest]
  rfl

/-- The texts with line feeds between them are cut into the pieces of all of them. -/
theorem splitOn_intercalate_lineFeed {texts : List (List Char)} (hne : texts ≠ []) :
    (['\n'].intercalate texts).splitOn '\n' = texts.flatMap (·.splitOn '\n') := by
  induction texts with
  | nil => exact absurd rfl hne
  | cons text later ih =>
    cases later with
    | nil => rw [List.intercalate_singleton, List.flatMap_singleton]
    | cons next later =>
      rw [List.intercalate_cons_cons, List.append_assoc, List.singleton_append,
        List.splitOn_append_cons_self, ih (List.cons_ne_nil next later), ← List.flatMap_cons]

theorem joinChars_eq_intercalate (separator : List Char) (texts : List (List Char)) :
    joinChars separator texts = separator.intercalate texts := by
  fun_induction joinChars separator texts with
  | case1 => rfl
  | case2 cs => rw [List.intercalate_singleton]
  | case3 cs later hlater ih =>
    rw [ih, List.intercalate_cons_of_ne_nil hlater]

/-- A character that ends no line belongs to the first line. -/
theorem lines_cons_of_ne {c : Char} (hc : c ≠ '\n') {rest line : List Char}
    {later : List (List Char)} (hreturn : c = '\r' → rest.head? ≠ some '\n')
    (hrest : lines rest = line :: later) : lines (c :: rest) = (c :: line) :: later := by
  have hnext : ∀ tail, c = '\r' → rest = '\n' :: tail → False := by
    rintro tail hc rfl
    exact hreturn hc rfl
  rw [lines.eq_4 c rest hc hnext, hrest]

namespace TrimmedLines

theorem tail {c : Char} {rest : List Char} (h : TrimmedLines (c :: rest)) : TrimmedLines rest := by
  refine ⟨fun hends => ?_, fun line hline => ?_⟩
  · cases rest with
    | nil => cases hends
    | cons d rest => exact h.ends (by rw [List.getLast?_cons_cons]; exact hends)
  · obtain ⟨first, later, hsplit⟩ := List.exists_cons_of_ne_nil (List.splitOn_ne_nil '\n' rest)
    by_cases hc : c = '\n'
    · subst hc
      refine h.trimmed line ?_
      rw [splitOn_lineFeed_cons]
      exact List.mem_cons_of_mem _ hline
    · have hwhole := h.trimmed
      rw [splitOn_cons_of_ne hc hsplit] at hwhole
      rw [hsplit] at hline
      rcases List.mem_cons.mp hline with rfl | hlater
      · have hfirst := hwhole (c :: line) List.mem_cons_self
        cases line with
        | nil => rfl
        | cons e line => rwa [List.getLast?_cons_cons] at hfirst
      · exact hwhole line (List.mem_cons_of_mem _ hlater)

/-- A carriage return that ends a line would be white space at its end. -/
theorem exists_cons_of_return {rest : List Char} (h : TrimmedLines ('\r' :: rest)) :
    ∃ c tail, rest = c :: tail ∧ c ≠ '\n' := by
  have hblank : ['\r'] ∉ ('\r' :: rest).splitOn '\n' := by
    intro hmem
    have hend : isBlank '\r' = false := h.trimmed ['\r'] hmem
    cases hend
  cases rest with
  | nil =>
    rw [splitOn_cons_of_ne (by decide) (List.splitOn_nil '\n')] at hblank
    exact absurd List.mem_cons_self hblank
  | cons c tail =>
    refine ⟨c, tail, rfl, ?_⟩
    rintro rfl
    rw [splitOn_cons_of_ne (by decide) (splitOn_lineFeed_cons tail)] at hblank
    exact hblank List.mem_cons_self

/-- Such a text is cut at its line feeds. -/
theorem lines_eq_splitOn {cs : List Char} (h : TrimmedLines cs) (hne : cs ≠ []) :
    lines cs = cs.splitOn '\n' := by
  fun_induction lines cs with
  | case1 => exact absurd rfl hne
  | case2 rest ih =>
    have hrest : rest ≠ [] := by
      rintro rfl
      exact h.ends rfl
    rw [splitOn_lineFeed_cons, ih h.tail hrest]
  | case3 rest ih =>
    obtain ⟨c, tail, hcons, hc⟩ := h.exists_cons_of_return
    exact absurd (List.cons.inj hcons).1.symm hc
  | case4 c rest hfeed hreturn hnil ih =>
    have hrest : rest = [] := by
      refine Classical.byContradiction fun hne => ?_
      rw [ih h.tail hne] at hnil
      exact List.splitOn_ne_nil _ _ hnil
    subst hrest
    exact (splitOn_cons_of_ne (fun heq => hfeed heq) (List.splitOn_nil '\n')).symm
  | case5 c rest hfeed hreturn first later hlines ih =>
    have hrest : rest ≠ [] := by
      rintro rfl
      cases hlines
    rw [ih h.tail hrest] at hlines
    rw [splitOn_cons_of_ne (fun heq => hfeed heq) hlines]

theorem empty : TrimmedLines [] :=
  ⟨nofun, by simp⟩

/-- One line that does not end in white space. -/
theorem of_line {line : List Char} (hfeed : '\n' ∉ line)
    (h : ∀ c ∈ line.getLast?, isBlank c = false) : TrimmedLines line where
  ends hends := hfeed (List.mem_of_getLast? hends)
  trimmed part hpart := by
    rw [List.splitOn_eq_singleton hfeed, List.mem_singleton] at hpart
    subst hpart
    exact (Option.any_eq_false _ _).mpr fun c hc => by simpa using h c hc

/-- A text in front of another one, on lines of its own. -/
theorem append_lineFeed {cs rest : List Char} (h : TrimmedLines cs) (hrest : TrimmedLines rest)
    (hne : rest ≠ []) : TrimmedLines (cs ++ '\n' :: rest) where
  ends := by
    obtain ⟨first, later, rfl⟩ := List.exists_cons_of_ne_nil hne
    have hends : (cs ++ '\n' :: first :: later).getLast? = (first :: later).getLast? := by
      rw [List.getLast?_append, List.getLast?_cons_cons, List.getLast?_cons, Option.some_or]
    rw [hends]
    exact hrest.ends
  trimmed line hline := by
    rw [List.splitOn_append_cons_self] at hline
    rcases List.mem_append.mp hline with hline | hline
    · exact h.trimmed line hline
    · exact hrest.trimmed line hline

/-- Such texts on lines of their own, the last of them not empty. -/
theorem intercalate {texts : List (List Char)} (h : ∀ text ∈ texts, TrimmedLines text)
    (hlast : texts.getLast? ≠ some []) : TrimmedLines (['\n'].intercalate texts) := by
  induction texts with
  | nil => exact empty
  | cons text later ih =>
    have htext := h text List.mem_cons_self
    cases later with
    | nil => rwa [List.intercalate_singleton]
    | cons next later =>
      rw [List.getLast?_cons_cons] at hlast
      have hlater := ih (fun other hother => h other (List.mem_cons_of_mem text hother)) hlast
      rw [List.intercalate_cons_cons, List.append_assoc, List.singleton_append]
      refine htext.append_lineFeed hlater fun hnil => hlast ?_
      -- The last text alone cannot be empty, and more than one make a line feed.
      cases later with
      | nil => rw [List.getLast?_singleton, ← hnil, List.intercalate_singleton]
      | cons last later =>
        rw [List.intercalate_cons_cons] at hnil
        simp at hnil

/-- A line feed ends the lines of the text before it, and those behind it follow. -/
theorem lines_append_lineFeed {cs : List Char} (h : TrimmedLines cs) (rest : List Char) :
    lines (cs ++ '\n' :: rest) = cs.splitOn '\n' ++ lines rest := by
  induction cs with
  | nil => rfl
  | cons c cs ih =>
    have hlines := ih h.tail
    by_cases hc : c = '\n'
    · subst hc
      rw [splitOn_lineFeed_cons, List.cons_append, List.cons_append, ← hlines, lines]
    · obtain ⟨line, later, hsplit⟩ := List.exists_cons_of_ne_nil (List.splitOn_ne_nil '\n' cs)
      have hwhole := splitOn_cons_of_ne hc hsplit
      have hreturn : c = '\r' → (cs ++ '\n' :: rest).head? ≠ some '\n' := by
        rintro rfl hhead
        obtain ⟨d, tail, rfl, hd⟩ := h.exists_cons_of_return
        exact hd (by simpa using hhead)
      rw [hsplit, List.cons_append] at hlines
      rw [hwhole, List.cons_append, List.cons_append]
      exact lines_cons_of_ne hc hreturn hlines

end TrimmedLines

end WireSchema.Text
