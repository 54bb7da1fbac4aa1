import WireSchema.Yaml.Value

/-!
# Deciding equality of YAML values

Plain equality, which unlike equality as a mapping key tells every two values apart.
-/

namespace WireSchema.Yaml

mutual

def Value.decEq : (a b : Value) → Decidable (a = b)
  | .null, .null => .isTrue rfl
  | .bool a, .bool b => decidable_of_iff (a = b) (by simp)
  | .number a, .number b => decidable_of_iff (a = b) (by simp)
  | .string a, .string b => decidable_of_iff (a = b) (by simp)
  | .sequence as, .sequence bs =>
    match decEqItems as bs with
    | .isTrue h => .isTrue (by rw [h])
    | .isFalse h => .isFalse (by simpa using h)
  | .mapping as, .mapping bs =>
    match decEqEntries as bs with
    | .isTrue h => .isTrue (by rw [h])
    | .isFalse h => .isFalse (by simpa using h)
  | .tagged s a, .tagged t b =>
    match decEq s t, a.decEq b with
    | .isTrue hs, .isTrue ha => .isTrue (by rw [hs, ha])
    | .isFalse hs, _ => .isFalse (by simp [hs])
    | _, .isFalse ha => .isFalse (by simp [ha])
  | .null, .bool _ | .null, .number _ | .null, .string _ | .null, .sequence _
  | .null, .mapping _ | .null, .tagged .. | .bool _, .null | .bool _, .number _
  | .bool _, .string _ | .bool _, .sequence _ | .bool _, .mapping _ | .bool _, .tagged ..
  | .number _, .null | .number _, .bool _ | .number _, .string _ | .number _, .sequence _
  | .number _, .mapping _ | .number _, .tagged .. | .string _, .null | .string _, .bool _
  | .string _, .number _ | .string _, .sequence _ | .string _, .mapping _
  | .string _, .tagged .. | .sequence _, .null | .sequence _, .bool _ | .sequence _, .number _
  | .sequence _, .string _ | .sequence _, .mapping _ | .sequence _, .tagged ..
  | .mapping _, .null | .mapping _, .bool _ | .mapping _, .number _ | .mapping _, .string _
  | .mapping _, .sequence _ | .mapping _, .tagged .. | .tagged .., .null | .tagged .., .bool _
  | .tagged .., .number _ | .tagged .., .string _ | .tagged .., .sequence _
  | .tagged .., .mapping _ => .isFalse (by simp)

def decEqItems : (as bs : List Value) → Decidable (as = bs)
  | [], [] => .isTrue rfl
  | a :: as, b :: bs =>
    match a.decEq b, decEqItems as bs with
    | .isTrue ha, .isTrue has => .isTrue (by rw [ha, has])
    | .isFalse ha, _ => .isFalse (by simp [ha])
    | _, .isFalse has => .isFalse (by simp [has])
  | [], _ :: _ => .isFalse (by simp)
  | _ :: _, [] => .isFalse (by simp)

def decEqEntries : (as bs : List (Value × Value)) → Decidable (as = bs)
  | [], [] => .isTrue rfl
  | a :: as, b :: bs =>
    match decEqEntry a b, decEqEntries as bs with
    | .isTrue ha, .isTrue has => .isTrue (by rw [ha, has])
    | .isFalse ha, _ => .isFalse (by simp [ha])
    | _, .isFalse has => .isFalse (by simp [has])
  | [], _ :: _ => .isFalse (by simp)
  | _ :: _, [] => .isFalse (by simp)

def decEqEntry : (a b : Value × Value) → Decidable (a = b)
  | (key, value), (key', value') =>
    match key.decEq key', value.decEq value' with
    | .isTrue hkey, .isTrue hvalue => .isTrue (by rw [hkey, hvalue])
    | .isFalse hkey, _ => .isFalse (by simp [hkey])
    | _, .isFalse hvalue => .isFalse (by simp [hvalue])

end

instance : DecidableEq Value := Value.decEq

end WireSchema.Yaml
