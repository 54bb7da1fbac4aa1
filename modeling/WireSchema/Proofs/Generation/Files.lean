import WireSchema.Proofs.Generation.Forms
import WireSchema.Proofs.Lookup

/-!
# The files for a schema

Verification is enough for generation: a schema that passes gets one file for each of
its types, and one that fails gets nothing but the violation.
-/

namespace WireSchema.Generation

open Verification

def fileNameOf (lead name : String) : String :=
  lead ++ name ++ ".swift"

theorem fileNameOf_injective (lead : String) : Function.Injective (fileNameOf lead) := by
  intro a b h
  have hchars := congrArg String.toList h
  simp only [fileNameOf, String.toList_append, List.append_cancel_right_eq,
    List.append_cancel_left_eq] at hchars
  exact String.ext hchars

theorem fileName_of_renderType {namer : Namer} {name : String} {definition : TypeDef}
    {file : GeneratedFile} (h : renderType namer name definition = .ok file) :
    file.fileName = fileNameOf namer.lead name := by
  obtain ⟨lines, -, hfile⟩ := Outcome.bind_eq_ok_iff.mp h
  cases hfile
  rfl

/-- Files come in the order of the types that they declare. -/
theorem map_fileName_of_renderTypes {namer : Namer} {entries : List (String × TypeDef)}
    {files : List GeneratedFile} (h : renderTypes namer entries = .ok files) :
    files.map GeneratedFile.fileName =
      entries.map fun entry => fileNameOf namer.lead entry.1 := by
  induction entries generalizing files with
  | nil =>
    cases h
    rfl
  | cons entry later ih =>
    obtain ⟨file, hfile, hrest⟩ := Outcome.bind_eq_ok_iff.mp h
    obtain ⟨more, hmore, hfiles⟩ := Outcome.bind_eq_ok_iff.mp hrest
    cases hfiles
    rw [List.map_cons, List.map_cons, fileName_of_renderType hfile, ih hmore]

/-- Generation fails exactly when verification does, with the violation that this finds.
Otherwise there is one file for each type, in ascending order of the types' names and under
a name of its own. This is a build without overflow checks: one with checks would stop at a
numbered enum whose fallback comes after the last integer of 64 bits (`nextRawValue`). -/
theorem generate_of_verify (schema : Schema) (language : Language) (lead : String) :
    match verify schema with
    | .error violation => generate schema language lead = .error (.violation violation)
    | .ok () => ∃ files, render schema lead = .ok files ∧
        generate schema language lead = .ok files ∧
        files.map GeneratedFile.fileName = schema.types.names.map (fileNameOf lead) ∧
        schema.types.names.Pairwise (· < ·) ∧
        (files.map GeneratedFile.fileName).Nodup := by
  cases hverify : verify schema with
  | error violation => rw [generate, hverify]
  | ok =>
    obtain ⟨files, hfiles⟩ := render_succeeds hverify lead
    have hnames : files.map GeneratedFile.fileName = schema.types.names.map (fileNameOf lead) := by
      rw [map_fileName_of_renderTypes hfiles, NameMap.names, List.map_map]
      rfl
    refine ⟨files, hfiles, ?_, hnames, List.pairwise_map.mpr schema.types.ascending, ?_⟩
    · cases language
      exact generate_of_render hverify hfiles
    · rw [hnames]
      exact schema.types.nodup_names.map (fileNameOf_injective lead)

end WireSchema.Generation
