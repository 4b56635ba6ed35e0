import TaggedBytecode.Val.Property

/-!
# Containers After Writes

A write to a container takes its key in one way, and a read takes it in another. A map files
and finds a value under the text of any key. A list is written under every key whose number is
an index, such as a truth value or the text of a numeral, but it is read only under numbers:
what it holds under another key is **overlooked**.

## Main definitions

* `Val.overlooks` — the keys under which a list is written and not read.

## Main results

* `Val.cases_of_setProperty` — what can be written.
* `Val.getProperty_of_setProperty` — reading a container under the key of a write.
* `Val.getProperty_of_setProperty_map` — reading a map after a write.
-/

namespace TaggedBytecode

namespace Val

variable {identity : Nat} {c c' key value : Val}

/-- Whether a read overlooks what a write files under a key. -/
def overlooks : Val → Val → Bool
  | list .., key => !key.isNumber
  | _, _ => false

/-- An item that was set is there, also where the list had to grow. -/
theorem getElem?_setItem (items : List Val) (index : Nat) (value : Val) :
    (setItem items index value)[index]? = some value := by
  rw [setItem, List.getElem?_set_self]
  rw [List.length_append, List.length_replicate]
  omega

/-- The name of the length is no index. -/
theorem toIndex?_length : (str "length").toNumber.toIndex? = none := by
  decide

/-- An item is read under a key that is a number. -/
theorem getProperty_list_of_isNumber {items : List Val} (hkey : key.isNumber = true) :
    (list identity items).getProperty key =
      match key.toNumber.toIndex? with
      | some i => items[i]?.getD undefined
      | none => undefined := by
  cases key with
  | int n => rfl
  | float x => rfl
  | _ => cases hkey

/-- Nothing is read under any other key that has an index. -/
theorem getProperty_list_of_not_isNumber {items : List Val} {index : Nat}
    (hkey : key.isNumber = false) (hindex : key.toNumber.toIndex? = some index) :
    (list identity items).getProperty key = undefined := by
  cases key with
  | str name =>
      have hname : name ≠ "length" := by
        rintro rfl
        rw [toIndex?_length] at hindex
        cases hindex
      exact if_neg hname
  | int n => cases hkey
  | float x => cases hkey
  | _ => rfl

/-- What can be written: a list at an index below its greatest length, and a map. -/
theorem cases_of_setProperty (h : setProperty identity c key value = .ok c') :
    (∃ old items index, c = list old items ∧ key.toNumber.toIndex? = some index ∧
      index < maxListLength ∧ c' = list identity (setItem items index value)) ∨
    ∃ old entries, c = map old entries ∧
      c' = map identity (Assoc.insert key.key value entries) := by
  cases c with
  | list old items =>
      rw [setProperty] at h
      split at h
      · cases h
      · rename_i index hindex
        split at h
        · cases h
        · rename_i hlength
          obtain rfl := Except.ok.inj h
          exact .inl ⟨old, items, index, rfl, hindex, Nat.lt_of_not_le hlength, rfl⟩
  | map old entries =>
      obtain rfl := Except.ok.inj h
      exact .inr ⟨old, entries, rfl, rfl⟩
  | _ => cases h

/-- **A container is read under the key of a write**: the value is there, unless the read
overlooks it. -/
theorem getProperty_of_setProperty (h : setProperty identity c key value = .ok c') :
    c'.getProperty key = if c.overlooks key then undefined else value := by
  rcases cases_of_setProperty h with
    ⟨_, items, index, rfl, hindex, -, rfl⟩ | ⟨_, entries, rfl, rfl⟩
  · cases hkey : key.isNumber with
    | true =>
        rw [getProperty_list_of_isNumber hkey, hindex, overlooks, hkey]
        simp only [getElem?_setItem]
        rfl
    | false =>
        rw [getProperty_list_of_not_isNumber hkey hindex, overlooks, hkey]
        rfl
  · rw [getProperty, Assoc.get?_insert, if_pos rfl]
    rfl

/-- A write makes a container. -/
theorem isNullish_of_setProperty (h : setProperty identity c key value = .ok c') :
    c'.isNullish = false := by
  rcases cases_of_setProperty h with ⟨_, _, _, -, -, -, rfl⟩ | ⟨_, _, -, rfl⟩ <;> rfl

/-- After a write to a map, the value is read under every key of the same text. -/
theorem getProperty_of_setProperty_map (identity old : Nat) (entries : List (String × Val))
    (key value other : Val) :
    ∃ updated, (map old entries).setProperty identity key value = .ok updated ∧
      updated.getProperty other =
        if other.key = key.key then value else (map old entries).getProperty other := by
  refine ⟨_, rfl, ?_⟩
  simp only [getProperty, Assoc.get?_insert]
  split <;> rfl

end Val

end TaggedBytecode
