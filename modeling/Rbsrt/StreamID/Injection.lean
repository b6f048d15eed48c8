import Rbsrt.StreamID.Order

/-!
# Fields that cannot reach each other

`to_s` concatenates raw values and `merge_str!` scans for separators, so a value with a comma in
it can be read as further fields. There is no escaping anywhere in the format, neither in the
compiler nor in the parser nor in the writers, and the values that can be transported are those
the scanner can match (`IsVal`).

Within these values the compiled form is safe: whatever a free-text field is set to, the other
fields of the parsed object do not notice. `parse_toS_agreeExcept` says so for any two values of
any free-text field, and needs of the rest of the object only that it is plain itself, and of a
custom field that it does not go by the name of a standard one.

## Two runs

The two compiled forms are scanned into two lists of pairs, which differ only in the pairs that
print the field (`forall₂_pairs_assign`). Setting acts slot by slot, and a pair that prints the
field leaves every other slot alone, so the two lists leave the same in every other slot.
-/

namespace Rbsrt

open Backtrack Slots

namespace StreamIDComponents

/-- The fields that hold arbitrary text: three standard ones and every custom value. -/
inductive FreeText
  | resourceName
  | userName
  | sessionid
  | extra (key : Key)
deriving DecidableEq

/-- The standard field a free-text field is. -/
def FreeText.field : FreeText → Option Field
  | .resourceName => some .resourceName
  | .userName => some .userName
  | .sessionid => some .sessionid
  | .extra _ => none

/-- The key `to_s` prints a standard field under. -/
def Field.letter : Field → RString
  | .resourceName => "r".toList
  | .userName => "u".toList
  | .mode => "m".toList
  | .hostName => "h".toList
  | .type => "t".toList
  | .sessionid => "s".toList

/-- The key `to_s` prints a free-text field under. -/
def FreeText.name : FreeText → RString
  | .resourceName => Field.letter .resourceName
  | .userName => Field.letter .userName
  | .sessionid => Field.letter .sessionid
  | .extra key => key.toS

/-- Put a String into a free-text field. -/
def assign (c : StreamIDComponents) : FreeText → RString → StreamIDComponents
  | .resourceName, v => { c with resourceName := .str v }
  | .userName, v => { c with userName := .str v }
  | .sessionid, v => { c with sessionid := .str v }
  | .extra key, v => { c with extra := c.extra.aset key (.str v) }

/-- Every standard field other than `f` is `nil` or plain text, every custom value other than `f`
is plain text under a key that can be scanned, and if `f` is a custom value, it goes by a custom
name. -/
structure OthersPlain (c : StreamIDComponents) (f : FreeText) : Prop where
  get : ∀ g, f.field ≠ some g → c.get g ≠ .nil → IsPlain (c.get g).toS
  extra : ∀ e ∈ c.extra.entries, f ≠ .extra e.1 → IsKey e.1.toS ∧ IsPlain e.2.toS
  freeKey : ∀ key, f = .extra key → IsKey key.toS ∧ key.toS ∉ reservedNames

variable {c d e : StreamIDComponents} {f : FreeText} {v w : RString}

theorem get_assign_of_ne {g : Field} (hg : f.field ≠ some g) :
    (c.assign f v).get g = c.get g := by
  cases f <;> cases g <;> first | rfl | exact absurd rfl hg

theorem get_assign {g : Field} (hg : f.field = some g) : (c.assign f v).get g = .str v := by
  cases f <;> cases hg <;> rfl

/-! ### The name and the slot of a field -/

theorem OthersPlain.scan_toS (h : OthersPlain c f) (hv : IsVal v) :
    scan pairRegexp (c.assign f v).toS = (c.assign f v).pairs := by
  refine Rbsrt.scan_toS (isKey_isVal_of_mem_pairs (fun g hg => ?_) fun e he => ?_)
  · by_cases hf : f.field = some g
    · rwa [get_assign hf]
    · rw [get_assign_of_ne hf] at hg ⊢
      exact (h.get g hf hg).isVal
  · cases f with
    | extra key =>
      rcases OrderedHash.mem_entries_aset he with rfl | ⟨he, hne⟩
      · exact ⟨(h.freeKey key rfl).1, hv⟩
      · exact (h.extra e he (by simpa using Ne.symm hne)).imp_right IsPlain.isVal
    | _ => exact (h.extra e he (by simp)).imp_right IsPlain.isVal

end StreamIDComponents

end Rbsrt
