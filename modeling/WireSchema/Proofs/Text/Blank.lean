import WireSchema.Text.Blank

/-!
# Trimmed texts

What is dropped at the end of a text is one run of white space, and what is kept
does not end in white space.
-/

namespace WireSchema.Text

/-- The text is what is kept followed by the run that is dropped. -/
theorem dropEndWhile_append (p : Char → Bool) (cs : List Char) :
    ∃ run, cs = dropEndWhile p cs ++ run ∧ ∀ c ∈ run, p c = true := by
  induction cs with
  | nil => exact ⟨[], rfl, by simp⟩
  | cons c rest ih =>
    obtain ⟨run, hrest, hrun⟩ := ih
    unfold dropEndWhile
    split
    · next hnil =>
      rw [hnil, List.nil_append] at hrest
      split
      · next hc =>
        refine ⟨c :: run, by rw [List.nil_append, ← hrest], fun d hd => ?_⟩
        rcases List.mem_cons.mp hd with rfl | hd
        · exact hc
        · exact hrun d hd
      · exact ⟨run, by rw [List.singleton_append, ← hrest], hrun⟩
    · exact ⟨run, by rw [List.cons_append, ← hrest], hrun⟩

theorem dropEndWhile_of_getLast? {p : Char → Bool} {cs : List Char}
    (h : ∀ c ∈ cs.getLast?, p c = false) : dropEndWhile p cs = cs := by
  induction cs with
  | nil => rfl
  | cons c rest ih =>
    cases rest with
    | nil => simp [dropEndWhile, h c rfl]
    | cons d more =>
      have hrest := ih (by simpa [List.getLast?_cons_cons] using h)
      rw [dropEndWhile, hrest]

/-- What is kept does not end in what is dropped. -/
theorem getLast?_dropEndWhile {p : Char → Bool} {cs : List Char} {c : Char}
    (h : (dropEndWhile p cs).getLast? = some c) : p c = false := by
  induction cs with
  | nil => simp [dropEndWhile] at h
  | cons d rest ih =>
    unfold dropEndWhile at h
    split at h
    · split at h
      · cases h
      · next hd =>
        cases h
        simpa using hd
    · next hkept =>
      obtain ⟨e, more, hcons⟩ := List.exists_cons_of_ne_nil hkept
      rw [hcons, List.getLast?_cons_cons, ← hcons] at h
      exact ih h

@[simp] theorem toList_trimEnd (s : String) : (trimEnd s).toList = trimEndChars s.toList := by
  simp [trimEnd]

/-- A text that does not end in white space is kept. -/
theorem trimEndChars_of_getLast? {cs : List Char} (h : ∀ c ∈ cs.getLast?, isBlank c = false) :
    trimEndChars cs = cs :=
  dropEndWhile_of_getLast? h

/-- A text that neither starts nor ends in white space is kept. -/
theorem trimChars_of_ends {cs : List Char} (hfirst : ∀ c ∈ cs.head?, isBlank c = false)
    (hlast : ∀ c ∈ cs.getLast?, isBlank c = false) : trimChars cs = cs := by
  have hstart : cs.dropWhile isBlank = cs := by
    cases cs with
    | nil => rfl
    | cons c later => rw [List.dropWhile_cons_of_neg (by simp [hfirst c rfl])]
  rw [trimChars, hstart, trimEndChars_of_getLast? hlast]

theorem trimEndChars_isPrefixOf (cs : List Char) : trimEndChars cs <+: cs := by
  obtain ⟨run, hrun, -⟩ := dropEndWhile_append isBlank cs
  exact ⟨run, hrun.symm⟩

theorem trimChars_sublist (cs : List Char) : (trimChars cs).Sublist cs :=
  (trimEndChars_isPrefixOf _).sublist.trans (List.dropWhile_sublist _)

theorem getLast?_trimEndChars {cs : List Char} {c : Char}
    (h : (trimEndChars cs).getLast? = some c) : isBlank c = false :=
  getLast?_dropEndWhile h

/-- What is dropped from the front of a text was there. -/
theorem eq_append_of_stripStart? {head cs rest : List Char} (h : stripStart? head cs = some rest) :
    cs = head ++ rest := by
  unfold stripStart? at h
  split at h
  · next hhead =>
    obtain ⟨tail, rfl⟩ := List.isPrefixOf_iff_prefix.mp hhead
    rw [List.drop_left] at h
    rw [Option.some.inj h]
  · cases h

end WireSchema.Text
