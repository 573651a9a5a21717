import Mathlib.Algebra.GroupWithZero.Nat
import Mathlib.Algebra.Ring.Int.Defs
import Mathlib.Data.List.Lex
import Mathlib.Order.Lattice
/-!
# Byte strings

A `std::string` is a list of bytes. Strings are ordered byte by byte, which is the order of their
comparison operators and of the keys of a `std::map`.
-/
namespace Jst

-- what the proofs use throughout of the library
export Bool (and_eq_true false_eq_true false_ne_true or_eq_true)
export Except (ok.inj ok.injEq)
export Function (comp_apply comp_def update_of_ne update_self)
export Function (update update_eq_self)
export List (append_assoc append_cancel_left append_nil append_of_mem cons.inj cons_append
  cons_ne_nil cons_prefix_cons drop_left filter_append filter_cons flatMap_cons foldlM_cons
  foldl_append foldl_cons forall_mem_append forall_mem_cons forall_mem_map getLast_mem
  length_append length_cons length_drop length_map length_nil length_replicate length_singleton
  length_take mapM_cons map_append map_congr_left map_cons map_map map_nil mem_append
  mem_append_left mem_append_right mem_cons mem_cons_of_mem mem_cons_self mem_filter mem_map
  mem_map_of_mem mem_singleton mem_singleton_self nil_append nodup_append nodup_cons nodup_nil
  not_mem_nil pairwise_cons pairwise_map pairwise_singleton replicate reverse_append reverse_cons
  reverse_reverse singleton_append)
export Option (bind_eq_bind bind_eq_some_iff bind_some getD_none getD_some isSome_iff_exists
  isSome_of_eq_some map_eq_some_iff map_some none_or not_isSome_iff_eq_none pure_def some.inj
  some.injEq)
export Prod (fst snd)

/-- A `std::string`. -/
abbrev Str := List UInt8

instance instLawfulBEqStr : LawfulBEq Str := inferInstance

/-- Bytes are ordered as unsigned numbers. -/
instance instLinearOrderByte : LinearOrder UInt8 :=
  LinearOrder.lift' UInt8.toNat fun _ _ same => UInt8.toNat_inj.mp same

theorem forall_byte {property : UInt8 → Prop}
    (every : ∀ number, number < 256 → property (UInt8.ofNat number)) (byte : UInt8) :
    property byte := by
  have holds := every byte.toNat byte.toNat_lt
  rwa [UInt8.ofNat_toNat] at holds

/-- The bytes of a string literal. -/
def lit (text : String) : Str := text.toUTF8.data.toList

theorem lit_inj {left right : String} : lit left = lit right ↔ left = right := by
  constructor
  · intro same
    exact String.toByteArray_inj.mp (ByteArray.ext (Array.ext' same))
  · intro same
    rw [same]

end Jst
