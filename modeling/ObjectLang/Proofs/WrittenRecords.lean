import ObjectLang.Yaml.Decode
import ObjectLang.Yaml.RecordText

/-! Records that are written and decoded again. What is relied on of the text form is only that it gives
back the value of the record that was written; for a given record that can be decided. -/

namespace ObjectLang.Yaml

def fieldsValue (fields : List (String × String)) : Value :=
  .fields (fields.map fun f => (f.1, .text f.2))

def Written.value : Written → Value
  | .text t => .text t
  | .records rs => .items (rs.map fieldsValue)

def Record.values (r : Record) : List (String × Value) := r.map fun f => (f.1, f.2.value)

/-- The text of a record is decoded to the value of the record. -/
def Record.ReadsBack (shape : Shape) (r : Record) : Prop :=
  decodeText shape r.text = .ok (some (some (.fields r.values)))

/-- The characters of a text field, which are those of its parts. -/
def fieldChars (lead : String) (column : Nat) (field : String × String) : List Char :=
  lead.toList ++ field.1.toList ++ ": ".toList ++
    (scalarText step (column + step) field.2).toList

def itemChars : List (String × String) → List Char
  | [] => "  - \x7b\x7d\n".toList
  | first :: rest =>
    fieldChars "  - " (2 * step) first ++ rest.flatMap (fieldChars "    " (2 * step))

/-- The characters of a record. A long text takes long to be taken apart, so they are put together from
those of the parts. -/
def Record.chars (r : Record) : List Char :=
  r.flatMap fun (key, written) =>
    match written with
    | .text text => fieldChars "" 0 (key, text)
    | .records [] => key.toList ++ ": []\n".toList
    | .records records => key.toList ++ ":\n".toList ++ records.flatMap itemChars

theorem toList_fieldText (lead : String) (column : Nat) (field : String × String) :
    (fieldText lead column field).toList = fieldChars lead column field := by
  simp only [fieldText, fieldChars, String.toList_append]

theorem toList_itemText (fields : List (String × String)) :
    (itemText fields).toList = itemChars fields := by
  cases fields with
  | nil => rfl
  | cons first rest =>
      dsimp only [itemText, itemChars]
      rw [String.toList_append, String.toList_join, List.flatMap_map, toList_fieldText]
      congr 2
      funext field
      exact toList_fieldText "    " (2 * step) field

theorem Record.toList_text (r : Record) : r.text.toList = r.chars := by
  rw [text, chars, String.toList_join, List.flatMap_map]
  congr 1
  funext ⟨key, written⟩
  rcases written with t | _ | ⟨first, rest⟩
  · exact toList_fieldText "" 0 (key, t)
  · exact String.toList_append
  · dsimp only
    rw [String.toList_append, String.toList_append, String.toList_join, List.flatMap_map]
    congr 2
    funext fields
    exact toList_itemText fields

def decidableEqMap {α β : Type} {f : α → β} (decide : ∀ b a, Decidable (b = f a)) :
    (bs : List β) → (as : List α) → Decidable (bs = as.map f)
  | [], [] => isTrue rfl
  | [], _ :: _ => isFalse (by simp)
  | _ :: _, [] => isFalse (by simp)
  | b :: bs, a :: as =>
    have := decide b a
    have := decidableEqMap decide bs as
    decidable_of_iff (b = f a ∧ bs = as.map f) (by rw [List.map_cons, List.cons_eq_cons])

def decidableEqPair {α β : Type} {f : β → α} (decide : ∀ a b, Decidable (a = f b))
    (p : String × α) (q : String × β) : Decidable (p = (q.1, f q.2)) :=
  have := decide p.2 q.2
  decidable_of_iff (p.1 = q.1 ∧ p.2 = f q.2) (by rw [Prod.ext_iff])

def decidableEqText : (v : Value) → (text : String) → Decidable (v = .text text)
  | .text found, text => decidable_of_iff (found = text) (by rw [Value.text.injEq])
  | .document _, _ | .truth _, _ | .whole _, _ | .items _, _ | .fields _, _ | .node _, _ =>
    isFalse (by simp)

def decidableEqFieldsValue :
    (v : Value) → (fields : List (String × String)) → Decidable (v = fieldsValue fields)
  | .fields found, fields =>
    have := decidableEqMap (decidableEqPair decidableEqText) found fields
    decidable_of_iff (found = fields.map fun f => (f.1, .text f.2))
      (by rw [fieldsValue, Value.fields.injEq])
  | .document _, _ | .truth _, _ | .whole _, _ | .items _, _ | .text _, _ | .node _, _ =>
    isFalse (by simp [fieldsValue])

def Written.decidableEqValue : (v : Value) → (w : Written) → Decidable (v = w.value)
  | v, .text t => decidableEqText v t
  | .items found, .records rs =>
    have := decidableEqMap decidableEqFieldsValue found rs
    decidable_of_iff (found = rs.map fieldsValue) (by rw [value, Value.items.injEq])
  | .document _, .records _ | .truth _, .records _ | .whole _, .records _ | .fields _, .records _
  | .text _, .records _ | .node _, .records _ => isFalse (by simp [value])

theorem Record.readsBack_iff (shape : Shape) (r : Record) :
    r.ReadsBack shape ↔ decodeChars shape r.chars = .ok (some (some (.fields r.values))) := by
  rw [ReadsBack, decodeText, toList_text]

theorem Record.not_readsBack {shape : Shape} {r : Record} {found : Except Error (Option (Option Value))}
    (h : decodeChars shape r.chars = found)
    (hother : ∀ fields, found ≠ .ok (some (some (.fields fields)))) : ¬r.ReadsBack shape :=
  fun hread => hother _ (h.symm.trans ((r.readsBack_iff shape).mp hread))

instance (shape : Shape) (r : Record) : Decidable (r.ReadsBack shape) :=
  match h : decodeChars shape r.chars with
  | .ok (some (some (.fields found))) =>
    have := decidableEqMap (decidableEqPair Written.decidableEqValue) found r
    decidable_of_iff (found = r.map fun f => (f.1, f.2.value))
      (by rw [Record.readsBack_iff, h]; simp [Record.values])
  | .error _ | .ok none | .ok (some none) | .ok (some (some (.text _)))
  | .ok (some (some (.document _))) | .ok (some (some (.truth _))) | .ok (some (some (.whole _)))
  | .ok (some (some (.items _))) | .ok (some (some (.node _))) =>
    isFalse (Record.not_readsBack h (by simp))

end ObjectLang.Yaml
