import WireSchema.Proofs.Generation.Lines
import WireSchema.Proofs.Swift.Documentation

/-!
# Documentation that is read and written again

Comments in front of a declaration are joined by line feeds, and documentation is written as a
comment for each of its lines. The two have different ideas of a last line: joining puts a line
feed in front of the last comment in any case, and a line feed at the end of a text is followed
by no further line. So an empty comment at the end is lost, and nothing else is.
-/

namespace WireSchema.Generation

open Extraction (joinDocs)
open Swift
open Text (isBlank TrimmedLines)

variable {texts : List String}

/-- The comments whose texts are found again: all but an empty one at the end. -/
def lastingDocs (texts : List String) : List String :=
  if texts.getLast? = some "" then texts.dropLast else texts

theorem lastingDocs_cons_cons (text next : String) (later : List String) :
    lastingDocs (text :: next :: later) = text :: lastingDocs (next :: later) := by
  unfold lastingDocs
  rw [List.getLast?_cons_cons, List.dropLast_cons_of_ne_nil (List.cons_ne_nil next later)]
  split <;> rfl

theorem subset_lastingDocs (texts : List String) : lastingDocs texts ⊆ texts := by
  unfold lastingDocs
  split
  · exact List.dropLast_subset texts
  · exact List.Subset.refl texts

/-- The lines of comments that are joined are those of the comments that last. -/
theorem lines_joined (h : ∀ text ∈ texts, TrimmedLines text.toList) :
    Text.lines (String.intercalate "\n" texts).toList =
      (lastingDocs texts).flatMap fun text => text.toList.splitOn '\n' := by
  induction texts with
  | nil => rfl
  | cons text later ih =>
    have htext := h text List.mem_cons_self
    cases later with
    | nil =>
      rw [String.intercalate_singleton, lastingDocs, List.getLast?_singleton]
      split
      · next hempty =>
        rw [Option.some.inj hempty]
        rfl
      · next hne =>
        have hchars : text.toList ≠ [] := by
          intro hnil
          exact hne (congrArg some (String.toList_eq_nil_iff.mp hnil))
        rw [List.flatMap_singleton, htext.lines_eq_splitOn hchars]
    | cons next later =>
      have hlater := ih fun other hother => h other (List.mem_cons_of_mem text hother)
      have hchars : (String.intercalate "\n" (text :: next :: later)).toList =
          text.toList ++ '\n' :: (String.intercalate "\n" (next :: later)).toList := by
        rw [String.intercalate_cons_cons, String.toList_append, String.toList_append,
          List.append_assoc]
        rfl
      rw [hchars, htext.lines_append_lineFeed, hlater, lastingDocs_cons_cons, List.flatMap_cons]

/-- The comments that documentation is written as say what the lasting ones say. -/
theorem joinDocs_docTexts_joined (h : ∀ text ∈ texts, TrimmedLines text.toList) :
    joinDocs (docTexts (some (String.intercalate "\n" texts))) = joinDocs (lastingDocs texts) := by
  have htrimmed : ∀ part ∈ (lastingDocs texts).flatMap fun text => text.toList.splitOn '\n',
      part.getLast?.any isBlank = false := by
    intro part hpart
    obtain ⟨text, htext, hmem⟩ := List.mem_flatMap.mp hpart
    exact (h text (subset_lastingDocs texts htext)).trimmed part hmem
  rw [docTexts_eq (lines_joined h) htrimmed]
  by_cases hnil : lastingDocs texts = []
  · rw [hnil]
    rfl
  · -- The pieces of all comments are those of the comments joined, which are put together again.
    have hchars : (lastingDocs texts).map String.toList ≠ [] := by simpa using hnil
    have hpieces := Text.splitOn_intercalate_lineFeed hchars
    rw [List.flatMap_map] at hpieces
    have hback : ((lastingDocs texts).map String.toList).map String.ofList = lastingDocs texts := by
      simp [Function.comp_def]
    rw [← hpieces, joinDocs_map_ofList (List.splitOn_ne_nil _ _), List.intercalate_splitOn,
      ← joinDocs_map_ofList hchars, hback]

/-- All of it is found again exactly if the last comment is not empty. -/
theorem joinDocs_lastingDocs_eq_iff (hne : texts ≠ []) :
    joinDocs (lastingDocs texts) = joinDocs texts ↔ texts.getLast? ≠ some "" := by
  refine ⟨fun hsame hlast => ?_, fun hlast => by rw [lastingDocs, if_neg hlast]⟩
  obtain ⟨front, rfl⟩ := List.getLast?_eq_some_iff.mp hlast
  rw [lastingDocs, if_pos hlast, List.dropLast_concat, joinDocs_of_ne_nil hne] at hsame
  by_cases hfront : front = []
  · subst hfront
    cases hsame
  · -- The empty comment stands behind one more line feed.
    rw [joinDocs_of_ne_nil hfront, String.intercalate_append_of_ne_nil hfront (by simp)] at hsame
    have hlength := congrArg String.length (Option.some.inj hsame)
    simp at hlength

/-! ## Comments of sources -/

/-- A token that documentation in some source makes. -/
def IsDocumentation (token : Token) : Prop :=
  token.kind = .doc ∧ ∃ text stream, tokenize text = .ok stream ∧ token ∈ stream.tokens

/-- Documentation taken from sources and written again is read as that of its comments without
an empty one at the end, so all of it survives exactly if the last comment is not empty. -/
theorem tokenize_docLines_of_isDocumentation {tokens : List Token} (hne : tokens ≠ [])
    (h : ∀ token ∈ tokens, IsDocumentation token) {indent : String}
    (hindent : indent.toList.all isBlank = true) :
    ∃ doc stream, joinDocs (tokens.map Token.text) = some doc ∧
      tokenize (joinLines (docLines indent (some doc))) = .ok stream ∧
      (∀ token ∈ stream.tokens, token.kind = .doc) ∧
      joinDocs (stream.tokens.map Token.text) =
        joinDocs (lastingDocs (tokens.map Token.text)) ∧
      (joinDocs (stream.tokens.map Token.text) = some doc ↔
        (tokens.map Token.text).getLast? ≠ some "") := by
  have htexts : tokens.map Token.text ≠ [] := by simpa using hne
  have htrimmed : ∀ text ∈ tokens.map Token.text, TrimmedLines text.toList := by
    intro text htext
    obtain ⟨token, htoken, rfl⟩ := List.mem_map.mp htext
    obtain ⟨hkind, source, stream, hsource, hmem⟩ := h token htoken
    exact trimmedLines_of_doc hsource hmem hkind
  obtain ⟨stream, hstream, hfaces⟩ := tokenize_joinLines
    (spellsLines_docLines hindent (some (String.intercalate "\n" (tokens.map Token.text))))
  have hagain : stream.tokens.map Token.text =
      docTexts (some (String.intercalate "\n" (tokens.map Token.text))) := by
    have hsnd := congrArg (List.map Prod.snd) hfaces
    rw [List.map_map, List.map_map] at hsnd
    exact hsnd.trans (List.map_id _)
  have hjoined := joinDocs_docTexts_joined htrimmed
  rw [← hagain] at hjoined
  refine ⟨_, stream, joinDocs_of_ne_nil htexts, hstream, fun token htoken => ?_, hjoined, ?_⟩
  · have hface : token.face ∈ stream.tokens.map Token.face := List.mem_map_of_mem htoken
    rw [hfaces] at hface
    obtain ⟨text, -, htext⟩ := List.mem_map.mp hface
    exact (congrArg Prod.fst htext).symm
  · rw [hjoined, ← joinDocs_of_ne_nil htexts]
    exact joinDocs_lastingDocs_eq_iff htexts

/-- The tokens of a comment between marks, where a line is left empty, and of one of a line. -/
def noticeTokens : List Token :=
  [⟨.doc, "Stock.\nMay be empty.", ⟨1, 1⟩⟩, ⟨.doc, "  - sorted", ⟨5, 1⟩⟩]

theorem tokenize_docLines_of_isDocumentation_notice :
    (∀ token ∈ noticeTokens, IsDocumentation token) ∧
      joinDocs (noticeTokens.map Token.text) = some "Stock.\nMay be empty.\n  - sorted" ∧
      ∃ stream, tokenize (joinLines (docLines "    "
          (some "Stock.\nMay be empty.\n  - sorted"))) = .ok stream ∧
        joinDocs (stream.tokens.map Token.text) = some "Stock.\nMay be empty.\n  - sorted" := by
  have hsource : tokenize "/** Stock.\n *\n * May be empty.\n */\n///   - sorted \n" =
      .ok ⟨noticeTokens, ⟨6, 1⟩⟩ := by decide +kernel
  have hdocs : ∀ token ∈ noticeTokens, IsDocumentation token := by
    intro token htoken
    have hkinds : ∀ token ∈ noticeTokens, token.kind = .doc := by decide
    exact ⟨hkinds token htoken, _, _, hsource, htoken⟩
  obtain ⟨doc, stream, hdoc, hstream, -, -, hsame⟩ :=
    tokenize_docLines_of_isDocumentation (by decide) hdocs (show "    ".toList.all isBlank = true by
      decide)
  have hjoined : joinDocs (noticeTokens.map Token.text) =
      some "Stock.\nMay be empty.\n  - sorted" := by decide
  cases hdoc.symm.trans hjoined
  exact ⟨hdocs, hjoined, stream, hstream, hsame.mpr (by decide)⟩

/-- A line feed at the end of documentation is not found again. -/
theorem docs_lost_behind_line :
    ∃ stream again, tokenize "/// An item.\n///\n" = .ok stream ∧ stream.tokens ≠ [] ∧
      (∀ token ∈ stream.tokens, token.kind = .doc) ∧
      joinDocs (stream.tokens.map Token.text) = some "An item.\n" ∧
      tokenize (joinLines (docLines "" (some "An item.\n"))) = .ok again ∧
      joinDocs (again.tokens.map Token.text) = some "An item." := by
  refine ⟨⟨[⟨.doc, "An item.", ⟨1, 1⟩⟩, ⟨.doc, "", ⟨2, 1⟩⟩], ⟨3, 1⟩⟩,
    ⟨[⟨.doc, "An item.", ⟨1, 1⟩⟩], ⟨2, 1⟩⟩, ?_⟩
  decide +kernel

end WireSchema.Generation
