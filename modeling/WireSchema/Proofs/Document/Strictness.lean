import WireSchema.Document.Reader
import WireSchema.Proofs.Logged

/-!
# Strict and lenient reading in step

Strict reading is lenient reading that stops at the first entry it would skip. The
strict run of a reader is therefore a function of its lenient run, `stopAtSkip`, and
what has to be seen is that this function passes through `bind`: the readers differ
in where they skip and in what they go on with, but `skip` is the only one of them
that looks at the strictness.
-/

namespace WireSchema.Document

open Yaml (Value Entries)

/-! ## Skips in a log -/

/-- The type, the entry and the reason of a skipped entry. -/
abbrev Skip := String × String × SkipReason

def Warning.skip? : Warning → Option Skip
  | .skippedEntry typeName entry reason => some (typeName, entry, reason)
  | .unrecognizedVersion _ => none

def firstSkip? (log : List Warning) : Option Skip :=
  log.findSome? Warning.skip?

def beforeSkip (log : List Warning) : List Warning :=
  log.takeWhile fun warning => warning.skip?.isNone

/-! ## Stopping at the first skip -/

def Fault.ofSkip (skip : Skip) : Fault :=
  .invalidEntry skip.1 skip.2.1 skip.2.2

/-- A fault in the structure of a document, not in one of its entries. -/
def Fault.IsStructural : Fault → Prop
  | .malformed _ | .missingField .. | .unknownKind .. => True
  | .unreadable | .invalidEntry .. => False

section

variable {α β : Type}

def stopAtSkip (run : Reading α) : Reading α :=
  match firstSkip? run.log with
  | none => run
  | some skip => ⟨beforeSkip run.log, .error (.ofSkip skip)⟩

theorem stopAtSkip_of_none {run : Reading α} (h : firstSkip? run.log = none) :
    stopAtSkip run = run := by
  rw [stopAtSkip, h]

theorem stopAtSkip_of_some {run : Reading α} {skip : Skip} (h : firstSkip? run.log = some skip) :
    stopAtSkip run = ⟨beforeSkip run.log, .error (.ofSkip skip)⟩ := by
  rw [stopAtSkip, h]

/-- A skip is one way for a warning to be a fault. -/
theorem stopAtSkip_eq (run : Reading α) :
    stopAtSkip run = run.stopAt fun warning => warning.skip?.map Fault.ofSkip := by
  have hfirst : run.log.findSome? (fun warning => warning.skip?.map Fault.ofSkip) =
      (firstSkip? run.log).map Fault.ofSkip := List.map_findSome?.symm
  have hbefore : Logged.beforeFault (fun warning => warning.skip?.map Fault.ofSkip) run.log =
      beforeSkip run.log := by
    simp only [Logged.beforeFault, beforeSkip, Option.isNone_map]
  rw [stopAtSkip, Logged.stopAt, hfirst, hbefore]
  cases firstSkip? run.log <;> rfl

theorem stopAtSkip_bind (run : Reading α) (next : α → Reading β) :
    stopAtSkip (run >>= next) = stopAtSkip run >>= fun a => stopAtSkip (next a) := by
  simp only [stopAtSkip_eq, Logged.stopAt_bind]

/-- The runs of one reader, lenient and strict: the strict run is the lenient one up to the
first skip, and the lenient run fails for the structure of the document only. -/
structure InStep (run : Strictness → Reading α) : Prop where
  strict_eq : run .strict = stopAtSkip (run .lenient)
  structural : ∀ fault, (run .lenient).result = .error fault → fault.IsStructural

namespace InStep

theorem ok (a : α) : InStep fun _ => (Logged.ok a : Reading α) :=
  ⟨rfl, nofun⟩

theorem pure (a : α) : InStep fun _ => (Pure.pure a : Reading α) :=
  .ok a

theorem fail (fault : Fault) (h : fault.IsStructural) :
    InStep fun _ => (Logged.fail fault : Reading α) := by
  refine ⟨rfl, ?_⟩
  rintro _ ⟨⟩
  exact h

theorem bind {run : Strictness → Reading α} {next : Strictness → α → Reading β}
    (hrun : InStep run) (hnext : ∀ a, InStep fun s => next s a) :
    InStep fun s => run s >>= next s where
  strict_eq := by
    rw [stopAtSkip_bind, hrun.strict_eq]
    congr 1
    funext a
    exact (hnext a).strict_eq
  structural := by
    intro fault hfault
    have hstructural := hrun.structural
    rcases hlenient : run .lenient with ⟨log, fault' | a⟩
    · rw [hlenient] at hfault hstructural
      cases hfault
      exact hstructural fault rfl
    · rw [hlenient] at hfault
      exact (hnext a).structural fault hfault

theorem map {run : Strictness → Reading α} (hrun : InStep run) (f : α → β) :
    InStep fun s => f <$> run s :=
  hrun.bind fun a => .pure (f a)

theorem foldlM {step : Strictness → β → α → Reading β}
    (hstep : ∀ b a, InStep fun s => step s b a) (as : List α) (start : β) :
    InStep fun s => as.foldlM (step s) start := by
  induction as generalizing start with
  | nil => exact .pure start
  | cons a later ih =>
    simp only [List.foldlM_cons]
    exact (hstep start a).bind ih

end InStep

end

/-! ## The readers of entries -/

namespace EntryContext

variable (typeName : String) (entry : Entries)

theorem inStep_skip (part : String) (reason : SkipReason) :
    InStep fun s => EntryContext.skip ⟨typeName, s⟩ part reason :=
  ⟨rfl, nofun⟩

theorem inStep_skipWith {α : Type} (part : String) (reason : SkipReason) (value : α) :
    InStep fun s => EntryContext.skipWith ⟨typeName, s⟩ part reason value :=
  (inStep_skip typeName part reason).bind fun _ => .pure value

theorem inStep_requireString (key : String) :
    InStep fun s => EntryContext.requireString ⟨typeName, s⟩ entry key := by
  unfold requireString
  split
  · exact .pure _
  · exact .fail (.missingField key typeName) trivial

theorem inStep_readDirection : InStep fun s => readDirection ⟨typeName, s⟩ entry := by
  unfold readDirection
  split
  · exact .pure _
  · split
    · exact .pure _
    · exact inStep_skipWith ..

theorem inStep_readDoc : InStep fun s => readDoc ⟨typeName, s⟩ entry := by
  unfold readDoc
  split
  · exact .pure _
  · exact .pure _
  · exact .pure _
  · exact inStep_skipWith ..

theorem inStep_readUnknownHandling :
    InStep fun s => readUnknownHandling ⟨typeName, s⟩ entry := by
  unfold readUnknownHandling
  split
  · exact .pure _
  · split
    · exact .pure _
    · exact (inStep_requireString ..).bind fun _ => .pure _
    · exact inStep_skipWith ..

theorem inStep_readStyle : InStep fun s => readStyle ⟨typeName, s⟩ entry := by
  unfold readStyle
  split
  · exact .pure _
  · split
    · exact .pure _
    · exact inStep_skipWith ..

theorem inStep_readDiscriminator :
    InStep fun s => readDiscriminator ⟨typeName, s⟩ entry := by
  unfold readDiscriminator
  split
  · exact .pure _
  · exact .pure _
  · exact .pure _
  · split
    · exact inStep_skipWith ..
    · exact (inStep_readStyle ..).bind fun _ => .pure _
  · exact inStep_skipWith ..

theorem inStep_readDeprecated : InStep fun s => readDeprecated ⟨typeName, s⟩ entry := by
  unfold readDeprecated
  split
  · exact .pure _
  · split
    · exact .pure _
    · exact inStep_skipWith ..

theorem inStep_readWireName (name : String) :
    InStep fun s => readWireName ⟨typeName, s⟩ name entry := by
  unfold readWireName
  split
  · exact .pure _
  · exact .pure _
  · exact .pure _
  · exact inStep_skipWith ..

theorem inStep_readRequired (name : String) (otherwise : Bool) :
    InStep fun s => readRequired ⟨typeName, s⟩ name entry otherwise := by
  unfold readRequired
  split
  · exact .pure _
  · exact .pure _
  · exact inStep_skipWith ..

theorem inStep_readFieldEntry (name type : String) :
    InStep fun s => readFieldEntry ⟨typeName, s⟩ name type entry := by
  apply (inStep_readWireName ..).bind
  rintro (_ | wireName)
  · exact .pure _
  · apply (inStep_readRequired ..).bind
    rintro (_ | required)
    · exact .pure _
    · exact (inStep_readDoc ..).bind fun _ => .pure _

theorem inStep_readType (name type : String) :
    InStep fun s => readType ⟨typeName, s⟩ name type := by
  unfold readType
  split
  · exact .pure _
  · exact inStep_skipWith ..

theorem inStep_readField (name : String) (value : Value) :
    InStep fun s => readField ⟨typeName, s⟩ name value := by
  unfold readField
  split
  · apply (inStep_readType ..).bind
    rintro (_ | type) <;> exact .pure _
  · split
    · exact inStep_skipWith ..
    · apply (inStep_readType ..).bind
      rintro (_ | type)
      · exact .pure _
      · exact inStep_readFieldEntry ..
  · exact inStep_skipWith ..

section

variable {α : Type} {readEntry : EntryContext → String → Value → Reading (Option α)}

theorem inStep_readTable (h : ∀ name value, InStep fun s => readEntry ⟨typeName, s⟩ name value)
    (table : String) (badKey : SkipReason) :
    InStep fun s => readTable ⟨typeName, s⟩ table badKey (readEntry ⟨typeName, s⟩) entry := by
  unfold readTable
  apply InStep.foldlM
  rintro map ⟨key, value⟩
  dsimp only
  split
  · exact inStep_skipWith ..
  · apply (h ..).bind
    rintro (_ | a) <;> exact .pure _

theorem inStep_readTableValue
    (h : ∀ name value, InStep fun s => readEntry ⟨typeName, s⟩ name value)
    (table : String) (badKey : SkipReason) (value : Option Value) :
    InStep fun s =>
      readTableValue ⟨typeName, s⟩ table badKey (readEntry ⟨typeName, s⟩) value := by
  unfold readTableValue
  split
  · exact .pure _
  · exact .pure _
  · exact inStep_readTable _ _ h ..
  · exact inStep_skipWith ..

end

theorem inStep_readFields (table : String) (value : Option Value) :
    InStep fun s => readFields ⟨typeName, s⟩ table value :=
  inStep_readTableValue typeName (inStep_readField typeName) ..

theorem inStep_readLiteralValue (name : String) (value : Value) :
    InStep fun s => readLiteralValue ⟨typeName, s⟩ name value := by
  unfold readLiteralValue
  split
  · exact .pure _
  · exact inStep_skipWith ..

theorem inStep_readValues : InStep fun s => readValues ⟨typeName, s⟩ entry :=
  inStep_readTableValue typeName (inStep_readLiteralValue typeName) ..

theorem inStep_readTag (name : String) :
    InStep fun s => readTag ⟨typeName, s⟩ name entry := by
  unfold readTag
  split
  · exact .pure _
  · exact .pure _
  · split
    · exact .pure _
    · exact inStep_skipWith ..

theorem inStep_readPayload (name : String) :
    InStep fun s => readPayload ⟨typeName, s⟩ name entry := by
  unfold readPayload
  split
  · exact inStep_skipWith ..
  · apply (inStep_readType ..).bind
    rintro (_ | type) <;> exact .pure _
  · exact inStep_skipWith ..
  · exact (inStep_readFields ..).bind fun _ => .pure _
  · exact .pure _

theorem inStep_readLiteral (name : String) :
    InStep fun s => readLiteral ⟨typeName, s⟩ name entry := by
  unfold readLiteral
  split
  · exact .pure _
  · exact .pure _
  · split
    · exact .pure _
    · exact inStep_skipWith ..

theorem inStep_readVariant (name : String) (value : Value) :
    InStep fun s => readVariant ⟨typeName, s⟩ name value := by
  unfold readVariant
  split
  · exact .pure _
  · apply (inStep_readTag ..).bind
    rintro (_ | tag)
    · exact .pure _
    apply (inStep_readPayload ..).bind
    rintro (_ | payload)
    · exact .pure _
    apply (inStep_readLiteral ..).bind
    rintro (_ | literal)
    · exact .pure _
    exact (inStep_readDoc ..).bind fun _ => .pure _
  · exact inStep_skipWith ..

theorem inStep_readVariants : InStep fun s => readVariants ⟨typeName, s⟩ entry :=
  inStep_readTableValue typeName (inStep_readVariant typeName) ..

/-! ## The readers of types -/

theorem inStep_readStruct : InStep fun s => readStruct ⟨typeName, s⟩ entry :=
  (inStep_readDirection ..).bind fun _ =>
    (inStep_readDoc ..).bind fun _ =>
      (inStep_readFields ..).bind fun _ => .pure _

theorem inStep_readStringEnum : InStep fun s => readStringEnum ⟨typeName, s⟩ entry :=
  (inStep_readDirection ..).bind fun _ =>
    (inStep_readDoc ..).bind fun _ =>
      (inStep_readUnknownHandling ..).bind fun _ =>
        (inStep_readValues ..).bind fun _ => .pure _

theorem inStep_readUnion : InStep fun s => readUnion ⟨typeName, s⟩ entry :=
  (inStep_readDirection ..).bind fun _ =>
    (inStep_readDoc ..).bind fun _ =>
      (inStep_readDiscriminator ..).bind fun _ =>
        (inStep_readUnknownHandling ..).bind fun _ =>
          (inStep_readVariants ..).bind fun _ => .pure _

theorem inStep_readAlias : InStep fun s => readAlias ⟨typeName, s⟩ entry :=
  (inStep_requireString ..).bind fun _ =>
    (inStep_readDeprecated ..).bind fun _ =>
      (inStep_readDoc ..).bind fun _ => .pure _

theorem inStep_readTypeDef : InStep fun s => readTypeDef ⟨typeName, s⟩ entry := by
  unfold readTypeDef
  split
  · exact .fail (.missingField "kind" typeName) trivial
  · rename_i kind _
    split
    · exact .fail (.unknownKind kind.shown typeName) trivial
    · exact (inStep_readStruct ..).map _
    · exact (inStep_readStringEnum ..).map _
    · exact (inStep_readUnion ..).map _
    · exact (inStep_readAlias ..).map _
    · rename_i other _ _ _ _ _
      exact .fail (.unknownKind other typeName) trivial

end EntryContext

/-! ## Documents -/

theorem inStep_readRootScalar (root : Entries) (key otherwise : String) (bad : Malformation) :
    InStep fun _ => readRootScalar root key otherwise bad := by
  unfold readRootScalar
  split
  · exact .pure _
  · split
    · exact .pure _
    · exact .fail _ trivial

theorem inStep_typeEntries (root : Entries) : InStep fun _ => typeEntries root := by
  unfold typeEntries
  split
  · exact .pure _
  · exact .pure _
  · exact .pure _
  · exact .fail _ trivial

theorem inStep_readTypeEntry (types : NameMap TypeDef) (key value : Value) :
    InStep fun s => readTypeEntry s types key value := by
  unfold readTypeEntry
  split
  · exact .fail _ trivial
  · split
    · exact .fail _ trivial
    · exact (EntryContext.inStep_readTypeDef ..).bind fun _ => .pure _

/-- An unrecognized version is warned of in both runs; it is no skip. -/
theorem inStep_warnVersion (version : String) :
    InStep fun _ => (Logged.warn (.unrecognizedVersion version) : Reading Unit) :=
  ⟨rfl, nofun⟩

theorem inStep_read (value : Value) : InStep fun s => read s value := by
  unfold read
  split
  · exact .fail _ trivial
  · rename_i root _
    apply (inStep_readRootScalar ..).bind
    intro version
    have hrest : InStep fun s => do
        let provider ← readRootScalar root "provider" "" .providerNotScalar
        let entries ← typeEntries root
        let types ← entries.foldlM (fun types entry =>
          readTypeEntry s types entry.1 entry.2) .empty
        return ({ version, provider, types } : Schema) := by
      apply (inStep_readRootScalar ..).bind
      intro provider
      apply (inStep_typeEntries root).bind
      intro entries
      refine InStep.bind ?_ fun types => .pure _
      exact InStep.foldlM (fun types entry => inStep_readTypeEntry types entry.1 entry.2) entries _
    dsimp only
    split
    · exact (inStep_warnVersion version).bind fun _ => hrest
    · exact hrest

/-- Strict reading is lenient reading that stops at the first skip. If the lenient run
skips something, whatever becomes of it later, the strict run has warned of the same up
to there and fails with the type, the entry and the reason of that skip; if it skips
nothing the two runs are the same. The lenient run itself fails only for the structure
of the document, never for an entry. -/
theorem read_strict (value : Value) :
    (match firstSkip? (read .lenient value).log with
      | some (typeName, entry, reason) =>
        (read .strict value).log = beforeSkip (read .lenient value).log ∧
          (read .strict value).result = .error (.invalidEntry typeName entry reason)
      | none => read .strict value = read .lenient value) ∧
    match (read .lenient value).result with
      | .ok _ => True
      | .error fault => fault.IsStructural := by
  have hstep := inStep_read value
  constructor
  · cases hskip : firstSkip? (read .lenient value).log with
    | none => exact hstep.strict_eq.trans (stopAtSkip_of_none hskip)
    | some skip =>
      rw [hstep.strict_eq, stopAtSkip_of_some hskip]
      exact ⟨rfl, rfl⟩
  · cases hresult : (read .lenient value).result with
    | ok schema => trivial
    | error fault => exact hstep.structural fault hresult

end WireSchema.Document
